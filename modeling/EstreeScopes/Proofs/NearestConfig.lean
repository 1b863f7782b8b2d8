/-
This file says where the configuration file for a path is found. The search looks
below the path, then below its parent and so on, and ends when there is no parent.
It drops components of the text, so the file that is found lies below a prefix of
the path, and no longer prefix leads to a directory with such a file.

The directory of a prefix is around the directory of the path as long as the
components that were dropped only lead further down. Two points lead up: if they
are dropped, the search goes down, and it can find the file of a directory that is
not around the path at all.
-/

import EstreeScopes.Config
import EstreeScopes.Proofs.PathComponents

namespace EstreeScopes

/-! ### Where paths lead -/

theorem FileEntry.at?_append (entry : FileEntry) (first second : List FileName) :
    entry.at? (first ++ second) = (entry.at? first).bind fun inner => inner.at? second := by
  induction first generalizing entry with
  | nil => rfl
  | cons name rest inductionHypothesis =>
    cases entry with
    | file content => rfl
    | directory entries =>
      rw [List.cons_append, at?, at?, Option.bind_assoc]
      exact congrArg _ (funext fun inner => inductionHypothesis inner)

/-- Whether a path can be looked up at all. -/
def Path.isUsable (path : Path) : Bool :=
  !path.bytes.contains 0 && decide (path.bytes.length ≤ FileSystem.pathLimit)

namespace FileSystem

/-- Where a segment leads from a place, if it leads anywhere. -/
def move (place : List FileName) (segment : FileName) : List FileName :=
  if Path.isVoid segment then place
  else if segment = ".." then place.dropLast
  else place ++ [segment]

/-- Where components start: at the root or at the working directory. -/
def origin (files : FileSystem) (components : List FileName) : List FileName :=
  if components.head? = some .empty then [] else files.workingDirectory

/-- Where a path leads if everything on its way is there. The empty path leads to the working
directory. -/
def aim (files : FileSystem) (path : Path) : List FileName :=
  path.components.foldl move (files.origin path.components)

/-- Components lead to a directory that holds an entry of a name. -/
def Holds (files : FileSystem) (components : List FileName) (name : FileName) : Prop :=
  ∃ place entries, files.follow (files.origin components) components = .ok place ∧
    files.root.at? place = some (.directory entries) ∧ (Entries.find? entries name).isSome = true

/-! ### Following segments -/

/-- What a segment that leads somewhere needs: a directory, and for a name an entry in it. -/
theorem step_eq_ok {files : FileSystem} {place next : List FileName} {segment : FileName}
    (led : files.step place segment = .ok next) :
    next = move place segment ∧ ∃ entries, files.root.at? place = some (.directory entries) ∧
      (Path.isVoid segment = true ∨ segment = ".." ∨
        (Entries.find? entries segment).isSome = true) := by
  rw [step] at led
  split at led
  · cases led
  · cases led
  · rename_i entries directory
    rw [move]
    split_ifs at led ⊢ with void upward long held
    · exact ⟨(Except.ok.inj led).symm, entries, directory, Or.inl void⟩
    · exact ⟨(Except.ok.inj led).symm, entries, directory, Or.inr (Or.inl upward)⟩
    · exact ⟨(Except.ok.inj led).symm, entries, directory, Or.inr (Or.inr held)⟩

theorem eq_foldl_of_follow {files : FileSystem} {place target : List FileName}
    {segments : List FileName} (led : files.follow place segments = .ok target) :
    target = segments.foldl move place := by
  induction segments generalizing place with
  | nil => exact (Except.ok.inj led).symm
  | cons segment rest inductionHypothesis =>
    rw [follow] at led
    split at led
    · rename_i next reached
      rw [List.foldl_cons, ← (step_eq_ok reached).1]
      exact inductionHypothesis led
    · cases led

theorem foldl_move_filter (place : List FileName) (segments : List FileName) :
    (segments.filter Path.isSolid).foldl move place = segments.foldl move place := by
  induction segments generalizing place with
  | nil => rfl
  | cons segment rest inductionHypothesis =>
    by_cases solid : Path.isSolid segment = true
    · rw [List.filter_cons_of_pos solid, List.foldl_cons, List.foldl_cons, inductionHypothesis]
    · have void : Path.isVoid segment = true := by simpa [Path.isSolid] using solid
      rw [List.filter_cons_of_neg solid, List.foldl_cons, move, if_pos void, inductionHypothesis]

/-- A void segment in front of others changes nothing: what it needs, the others need too. -/
theorem follow_void (files : FileSystem) (place : List FileName) {void : FileName}
    (isVoid : Path.isVoid void = true) (segment : FileName) (rest : List FileName) :
    files.follow place (void :: segment :: rest) = files.follow place (segment :: rest) := by
  rw [follow]
  cases found : files.root.at? place with
  | none => simp only [follow, step, found]
  | some entry =>
    cases entry with
    | file content => simp only [follow, step, found]
    | directory entries =>
      have stays : files.step place void = .ok place := by simp only [step, found, isVoid, if_true]
      rw [stays]

theorem follow_filter (files : FileSystem) (place : List FileName) (segments : List FileName)
    (name : FileName) :
    files.follow place (segments.filter Path.isSolid ++ [name]) =
      files.follow place (segments ++ [name]) := by
  induction segments generalizing place with
  | nil => rfl
  | cons segment rest inductionHypothesis =>
    by_cases solid : Path.isSolid segment = true
    · rw [List.filter_cons_of_pos solid, List.cons_append, List.cons_append, follow, follow]
      split
      · exact inductionHypothesis _
      · rfl
    · have void : Path.isVoid segment = true := by simpa [Path.isSolid] using solid
      rw [List.filter_cons_of_neg solid, inductionHypothesis, List.cons_append]
      cases rest <;> exact (follow_void files place void _ _).symm

theorem follow_append (files : FileSystem) (place : List FileName) (first second : List FileName) :
    files.follow place (first ++ second) =
      (files.follow place first).bind fun next => files.follow next second := by
  induction first generalizing place with
  | nil => rfl
  | cons segment rest inductionHypothesis =>
    rw [List.cons_append, follow, follow]
    split
    · exact inductionHypothesis _
    · rfl

/-! ### Looking up paths -/

theorem isUsable_of_resolve {files : FileSystem} {path : Path} {place : List FileName}
    (led : files.resolve path = .ok place) : path.isUsable = true := by
  rw [resolve] at led
  split_ifs at led with zero long
  simpa [Path.isUsable] using And.intro zero (not_lt.mp long)

/-- Where a path with segments starts. -/
theorem resolve_cons (files : FileSystem) {head : FileName} {body : List FileName}
    (usable : ({ segments := head :: body } : Path).isUsable = true)
    (some : ¬ (head = .empty ∧ body = [])) :
    files.resolve { segments := head :: body } =
      if head = .empty then files.follow [] body
      else files.follow files.workingDirectory (head :: body) := by
  simp only [Path.isUsable, Bool.and_eq_true, Bool.not_eq_true', decide_eq_true_eq] at usable
  rw [resolve, if_neg (by rw [usable.1]; exact Bool.false_ne_true), if_neg (not_lt.mpr usable.2)]
  exact if_neg some

/-- A path that ends in a component leads where its components lead. -/
theorem resolve_eq_follow (files : FileSystem) {front : List FileName} {name : FileName}
    (solid : Path.isSolid name = true)
    (usable : ({ segments := front ++ [name] } : Path).isUsable = true) :
    files.resolve { segments := front ++ [name] } =
      files.follow (files.origin (Path.components { segments := front ++ [name] }))
        (Path.components { segments := front ++ [name] }) := by
  have given : name ≠ .empty := by
    rintro rfl
    cases solid
  cases front with
  | nil =>
    have alone : ¬ (name = .empty ∧ ([] : List FileName) = []) := fun equal => given equal.1
    rw [List.nil_append, resolve_cons files usable alone, Path.components_cons alone, if_neg given,
      origin, List.head?_cons, if_neg fun equal => given (Option.some.inj equal), List.filter_nil]
  | cons head body =>
    rw [List.cons_append] at usable ⊢
    rw [resolve_cons files usable (by simp), Path.components_concat head body solid,
      origin, List.head?_cons]
    by_cases rooted : head = .empty
    · rw [if_pos rooted, if_pos (congrArg _ rooted), rooted, ← follow_filter]
      cases body.filter Path.isSolid <;> exact (follow_void files [] rfl _ _).symm
    · rw [if_neg rooted, if_neg fun equal => rooted (Option.some.inj equal), follow, follow]
      split
      · exact (follow_filter files _ body name).symm
      · rfl

/-- Where a path leads is where it aims. -/
theorem eq_aim_of_resolve {files : FileSystem} {path : Path} {place : List FileName}
    (led : files.resolve path = .ok place) : place = files.aim path := by
  have usable := isUsable_of_resolve led
  obtain ⟨segments⟩ := path
  cases segments with
  | nil =>
    rw [resolve] at led
    split_ifs at led
  | cons head body =>
    by_cases nothing : head = .empty ∧ body = []
    · obtain ⟨rfl, rfl⟩ := nothing
      rw [resolve] at led
      split_ifs at led
      cases led
    · rw [resolve_cons files usable nothing] at led
      rw [aim, Path.components_cons nothing, origin, List.head?_cons, List.foldl_cons,
        foldl_move_filter]
      by_cases rooted : head = .empty
      · rw [if_pos rooted] at led
        rw [if_pos (congrArg _ rooted), rooted]
        exact eq_foldl_of_follow led
      · rw [if_neg rooted] at led
        rw [if_neg fun equal => rooted (Option.some.inj equal), ← List.foldl_cons]
        exact eq_foldl_of_follow led

/-! ### Entries of a directory -/

variable {name : FileName}

theorem exists?_iff {files : FileSystem} {path : Path} :
    files.exists? path = true ↔
      ∃ place, files.resolve path = .ok place ∧ (files.root.at? place).isSome = true := by
  rw [exists?, entry]
  cases files.resolve path with
  | error cause => simp
  | ok place => cases found : files.root.at? place <;> simp [found]

/-- A name leads on from a place if and only if a directory stands there that holds the name. -/
theorem step_name (files : FileSystem) (place : List FileName) (solid : Path.isSolid name = true)
    (named : name ≠ "..") (short : name.bytes.length ≤ nameLimit) {next : List FileName} :
    files.step place name = .ok next ↔
      next = place ++ [name] ∧ ∃ entries, files.root.at? place = some (.directory entries) ∧
        (Entries.find? entries name).isSome = true := by
  have notVoid : ¬ Path.isVoid name = true := by simpa [Path.isSolid] using solid
  constructor
  · intro led
    obtain ⟨rfl, entries, directory, void | up | held⟩ := step_eq_ok led
    · exact absurd void notVoid
    · exact absurd up named
    · rw [move, if_neg notVoid, if_neg named]
      exact ⟨rfl, entries, directory, held⟩
  · rintro ⟨rfl, entries, directory, held⟩
    rw [step, directory]
    dsimp only
    rw [if_neg notVoid, if_neg named, if_neg (not_lt.mpr short), if_pos held]

theorem origin_concat (files : FileSystem) (components : List FileName) (given : name ≠ .empty) :
    files.origin (components ++ [name]) = files.origin components := by
  cases components with
  | nil => exact if_neg fun equal => given (Option.some.inj equal)
  | cons head rest => rfl

theorem resolve_child (files : FileSystem) (path : Path) (solid : Path.isSolid name = true)
    (usable : (path.child name).isUsable = true) :
    files.resolve (path.child name) =
      (files.follow (files.origin path.components) path.components).bind fun place =>
        files.step place name := by
  have given : name ≠ .empty := by
    rintro rfl
    cases solid
  have components := Path.components_child path solid
  rw [Path.child_eq] at usable components ⊢
  rw [resolve_eq_follow files solid usable, components, origin_concat files _ given, follow_append]
  refine congrArg _ (funext fun place => ?_)
  rw [follow]
  cases files.step place name <;> rfl

/-- An entry that can be looked up below a path is there if and only if the components of the path
lead to a directory that holds it. -/
theorem exists?_child_iff (files : FileSystem) (path : Path) (solid : Path.isSolid name = true)
    (named : name ≠ "..") (short : name.bytes.length ≤ nameLimit)
    (usable : (path.child name).isUsable = true) :
    files.exists? (path.child name) = true ↔ files.Holds path.components name := by
  rw [exists?_iff, resolve_child files path solid usable, Holds]
  cases files.follow (files.origin path.components) path.components with
  | error cause =>
    exact iff_of_false (fun ⟨_, led, _⟩ => nomatch led) fun ⟨_, _, led, _⟩ => nomatch led
  | ok place =>
    constructor
    · rintro ⟨next, led, _⟩
      obtain ⟨_, entries, held⟩ := (step_name files place solid named short).mp led
      exact ⟨place, entries, rfl, held⟩
    · rintro ⟨reached, entries, led, directory, held⟩
      obtain rfl := Except.ok.inj led
      refine ⟨_, (step_name files place solid named short).mpr ⟨rfl, entries, directory, held⟩, ?_⟩
      rw [FileEntry.at?_append, directory, Option.bind_some, FileEntry.at?]
      exact (Option.isSome_bind _ _).trans (by simpa [FileEntry.at?] using held)

/-! ### Up and down -/

/-- Components that do not lead up lead from a place to a place inside it. -/
theorem prefix_foldl_move (place : List FileName) {components : List FileName}
    (down : FileName.ofText ".." ∉ components) : place <+: components.foldl move place := by
  induction components generalizing place with
  | nil => exact List.prefix_refl place
  | cons component rest inductionHypothesis =>
    have stays : place <+: move place component := by
      rw [move]
      split_ifs with void up
      · exact List.prefix_refl place
      · exact absurd (up ▸ List.mem_cons_self) down
      · exact List.prefix_append place [component]
    exact stays.trans (inductionHypothesis _ (List.not_mem_of_not_mem_cons down))

/-- A path leads one component further than its parent. -/
theorem aim_of_parent? (files : FileSystem) {path parent : Path} (up : path.parent? = some parent) :
    ∃ last, path.components = parent.components ++ [last] ∧
      files.aim path = move (files.aim parent) last := by
  obtain ⟨last, parts, notRoot⟩ := Path.components_of_parent? up
  refine ⟨last, parts, ?_⟩
  have same : files.origin path.components = files.origin parent.components := by
    rw [parts] at notRoot ⊢
    generalize parent.components = components at notRoot ⊢
    cases components with
    | nil => exact if_neg fun equal => notRoot (by rw [Option.some.inj equal]; rfl)
    | cons head rest => rfl
  rw [aim, same, parts, List.foldl_concat]
  rfl

end FileSystem

/-! ### The search -/

namespace Config

/-- The search from a path on and what it finds: the file below the path, or what the search from
the parent finds. Without a parent nothing is found. -/
inductive Search (files : FileSystem) : Path → Option Path → Prop where
  | here {path : Path} (held : files.exists? (path.child fileName) = true) :
      Search files path (some (path.child fileName))
  | up {path parent : Path} {result : Option Path}
      (missing : files.exists? (path.child fileName) = false)
      (above : path.parent? = some parent) (onward : Search files parent result) :
      Search files path result
  | top {path : Path} (missing : files.exists? (path.child fileName) = false)
      (above : path.parent? = none) : Search files path none

/-- What is found first in a list that starts with a path: the file below it, or else what is found
in the rest. -/
theorem find?_child_cons (files : FileSystem) (path : Path) (rest : List Path) :
    (((path :: rest).map fun ancestor => ancestor.child fileName).find? fun path =>
      files.exists? path) =
      if files.exists? (path.child fileName) then some (path.child fileName)
      else (rest.map fun ancestor => ancestor.child fileName).find? fun path =>
        files.exists? path := by
  rw [List.map_cons, List.find?_cons]
  cases files.exists? (path.child fileName) <;> rfl

/-- As many parents as a path has components are all there are, so the search ends. -/
theorem search_within (files : FileSystem) (bound : Nat) (path : Path)
    (enough : path.components.length ≤ bound) :
    Search files path (((Path.ancestorsWithin bound path).map fun ancestor =>
      ancestor.child fileName).find? fun path => files.exists? path) := by
  have topmost {path : Path} (above : path.parent? = none) :
      Search files path (([path].map fun ancestor => ancestor.child fileName).find? fun path =>
        files.exists? path) := by
    rw [find?_child_cons]
    split
    · rename_i held
      exact .here held
    · rename_i missing
      exact .top (Bool.eq_false_iff.mpr missing) above
  induction bound generalizing path with
  | zero =>
    have none : path.components = [] := List.length_eq_zero_iff.mp (Nat.le_zero.mp enough)
    exact topmost (Path.parent?_eq_none_iff.mpr (Or.inl none))
  | succ bound inductionHypothesis =>
    rw [Path.ancestorsWithin]
    split
    · rename_i above
      exact topmost above
    · rename_i parent above
      obtain ⟨last, parts, _⟩ := Path.components_of_parent? above
      rw [find?_child_cons]
      split
      · rename_i held
        exact .here held
      · rename_i missing
        refine .up (Bool.eq_false_iff.mpr missing) above (inductionHypothesis parent ?_)
        rw [parts, List.length_append] at enough
        exact Nat.le_of_succ_le_succ enough

theorem search_find? {files : FileSystem} {start directory : Path}
    (starts : searchStart? files start = some directory) :
    Search files directory (find? files start) := by
  rw [find?, starts, Option.bind_some]
  exact search_within files _ directory directory.length_components_le

/-- What is found lies below a prefix of the path, and below no longer one there is such a file. The
path leads from where the prefix leads through the components that were dropped. -/
theorem Search.nearest {files : FileSystem} {path found : Path}
    (search : Search files path (some found)) :
    ∃ above dropped, found = above.child fileName ∧ files.exists? found = true ∧
      path.components = above.components ++ dropped ∧
      files.aim path = dropped.foldl FileSystem.move (files.aim above) ∧
      above.text.toList <+: path.text.toList ∧
      ∀ longer, longer <+: path.components → above.components.length < longer.length →
        ∃ ancestor : Path, ancestor.components = longer ∧
          ancestor.text.toList <+: path.text.toList ∧
          files.exists? (ancestor.child fileName) = false := by
  generalize result : some found = outcome at search
  induction search with
  | @here path held =>
    cases result
    refine ⟨path, [], rfl, held, (List.append_nil _).symm, rfl, List.prefix_refl _, ?_⟩
    exact fun longer leads more => absurd leads.length_le (not_le.mpr more)
  | @up path parent outcome missing above onward inductionHypothesis =>
    obtain ⟨prior, dropped, below, held, parts, led, texts, none⟩ := inductionHypothesis result
    obtain ⟨last, lastParts, lastLed⟩ := files.aim_of_parent? above
    have shorter := Path.text_of_parent? above
    refine ⟨prior, dropped ++ [last], below, held, ?_, ?_, texts.trans shorter, ?_⟩
    · rw [lastParts, parts, List.append_assoc]
    · rw [lastLed, led, List.foldl_concat]
    · intro longer leads more
      rw [lastParts, List.prefix_concat_iff, ← lastParts] at leads
      rcases leads with rfl | leads
      · exact ⟨path, rfl, List.prefix_refl _, missing⟩
      · obtain ⟨ancestor, named, inText, absent⟩ := none longer leads more
        exact ⟨ancestor, named, inText.trans shorter, absent⟩
  | top missing above => cases result

theorem fileName_solid : Path.isSolid fileName = true := by decide

/-- What is found is the entry of the directory that the path above it leads to. -/
theorem resolve_of_exists {files : FileSystem} {above : Path}
    (held : files.exists? (above.child fileName) = true) :
    files.resolve (above.child fileName) = .ok (files.aim above ++ [FileName.ofText fileName]) := by
  obtain ⟨place, led, _⟩ := FileSystem.exists?_iff.mp held
  have aimed :
      files.aim (above.child fileName) = files.aim above ++ [FileName.ofText fileName] := by
    rw [FileSystem.aim, Path.components_child above fileName_solid,
      FileSystem.origin_concat files _ (by decide), List.foldl_concat]
    rfl
  rw [led, FileSystem.eq_aim_of_resolve led, aimed]

/-- The search for the configuration file ends for every path. It starts at the path, or at its
parent if the path leads to a file, and what it finds lies in the directory of a prefix of the
starting path. That directory is the starting directory or one around it, unless two points were
dropped on the way to the prefix; and no longer prefix that can be looked up leads to a directory
with a configuration file. -/
theorem search_goes_up_to_nearest (files : FileSystem) (start : Path) :
    (∀ directory, searchStart? files start = some directory →
      Search files directory (find? files start)) ∧
    ∀ found, find? files start = some found →
      ∃ (directory above : Path) (place dropped : List FileName),
        searchStart? files start = some directory ∧
        (∀ reached, files.resolve directory = .ok reached → reached = files.aim directory) ∧
        found = above.child fileName ∧
        files.resolve found = .ok (place ++ [FileName.ofText fileName]) ∧
        directory.components = above.components ++ dropped ∧
        above.text.toList <+: directory.text.toList ∧
        (FileName.ofText ".." ∉ dropped → place <+: files.aim directory) ∧
        ∀ longer, longer <+: directory.components → above.components.length < longer.length →
          ∃ ancestor : Path, ancestor.components = longer ∧
            ancestor.text.toList <+: directory.text.toList ∧
            ((ancestor.child fileName).isUsable = true → ¬ files.Holds longer fileName) := by
  refine ⟨fun directory starts => search_find? starts, fun found result => ?_⟩
  obtain ⟨directory, starts, _⟩ := Option.bind_eq_some_iff.mp result
  have search := search_find? starts
  rw [result] at search
  obtain ⟨above, dropped, below, held, parts, led, texts, none⟩ := search.nearest
  rw [below] at held
  refine ⟨directory, above, files.aim above, dropped, starts,
    fun reached led => FileSystem.eq_aim_of_resolve led, below,
    below ▸ resolve_of_exists held, parts, texts, fun down => ?_, fun longer leads more => ?_⟩
  · rw [led]
    exact FileSystem.prefix_foldl_move _ down
  · obtain ⟨ancestor, rfl, inText, absent⟩ := none longer leads more
    refine ⟨ancestor, rfl, inText, fun usable holds => ?_⟩
    rw [← FileSystem.exists?_child_iff files ancestor fileName_solid (by decide) (by decide) usable,
      absent] at holds
    cases holds

/-- A directory `w/p` with a configuration file and, one directory further down, a tree file. Paths
start from `w`. -/
def projectFiles : FileSystem :=
  { root := .directory [("w", .directory [("p", .directory
      [ (fileName, .file .empty), ("q", .directory [("r.json", .file .empty)]) ])])],
    workingDirectory := ["w"] }

/-- The search from the file passes through the directory of the file and ends in the one around
it, although the path goes up before it goes down. -/
theorem projectFiles_search :
    let found := Path.ofText "../w/p/hoistwalk.toml"
    find? projectFiles (Path.ofText "../w/p/./q/r.json") = some found ∧
      ∃ place, projectFiles.resolve found = .ok (place ++ [FileName.ofText fileName]) ∧
        place <+: projectFiles.aim (Path.ofText "../w/p/./q") ∧
        projectFiles.resolve (Path.ofText "../w/p/./q") = .ok ["w", "p", "q"] := by
  intro found
  have result : find? projectFiles (Path.ofText "../w/p/./q/r.json") = some found := by
    decide
  refine ⟨result, ?_⟩
  obtain ⟨directory, above, place, dropped, starts, reaches, below, held, parts, _, inside, _⟩ :=
    (search_goes_up_to_nearest projectFiles (Path.ofText "../w/p/./q/r.json")).2 found result
  have starting : searchStart? projectFiles (Path.ofText "../w/p/./q/r.json") =
      some (Path.ofText "../w/p/./q") := by decide
  obtain rfl := Option.some.inj (starts.symm.trans starting)
  have named : above.components = ["..", "w", "p"] := by
    have whole := congrArg Path.components below
    rw [Path.components_child above fileName_solid] at whole
    exact List.append_cancel_right (whole.symm.trans (by decide))
  have last : dropped = ["q"] := by
    rw [named] at parts
    exact List.append_cancel_left (parts.symm.trans (by decide))
  refine ⟨place, held, inside (by rw [last]; decide), by decide⟩

/-- A directory without a configuration file around one that has one. -/
def innerConfig : FileSystem :=
  { root := .directory [("a", .directory [(fileName, .file .empty)])], workingDirectory := [] }

/-- The search from the parent of a directory, written with two points, finds the file of the
directory itself, which is not around the place where the search starts. -/
theorem search_goes_down_past_two_points :
    let start := Path.ofText "a/.."
    let found := Path.ofText "a/hoistwalk.toml"
    searchStart? innerConfig start = some start ∧ innerConfig.resolve start = .ok [] ∧
      find? innerConfig start = some found ∧
      innerConfig.resolve found = .ok ([FileName.ofText "a"] ++ [FileName.ofText fileName]) ∧
      ¬ [FileName.ofText "a"] <+: [] := by
  intro start found
  refine ⟨by decide, by decide, by decide, by decide, by decide⟩

end Config

end EstreeScopes
