/-
This file shows that the search for free references accounts for every file that
was found, once (`free_command_accounts_for_every_file`). What becomes of a file
is decided by its own text: it is reported, it is no tree, or its tree cannot be
walked. The command works in two stages, of which each passes over some files and
warns about them, and puts the warnings of both together at the end. The outcome
is the same as sorting the files by what becomes of them, in the order in which
they were found, and the exit code depends on the reported ones alone.
-/

import EstreeScopes.Command.Run
import Mathlib

namespace EstreeScopes.Command

/-! ### What becomes of a file -/

/-- What becomes of a file: it is reported with its free references, it is no tree, or its tree
cannot be walked. -/
inductive Account where
  | reported (found : List Reference)
  | notLoaded (cause : LoadError)
  | notWalked (fault : Fault)

/-- What becomes of a file, given what reading it gives. -/
def account (explain : String → Option String) (search : Reference.Options) (path : Path)
    (read : Except FileError String) : Account :=
  match read with
  | .error cause => .notLoaded (.unreadable path cause)
  | .ok text =>
    match Node.ofText text with
    | .error cause => .notLoaded (.notTree path cause (explain text))
    | .ok tree =>
      match tree.freeReferences search with
      | .ok found => .reported found
      | .error fault => .notWalked fault

namespace Account

/-- The report on a file. -/
def report? (path : Path) : Account → Option (FileReport Reference)
  | .reported found => some { path, found }
  | .notLoaded _ | .notWalked _ => none

/-- The warning about a file that is no tree. -/
def loadWarning? : Account → Option String
  | .notLoaded cause => some cause.message
  | .reported _ | .notWalked _ => none

/-- The warning about a file whose tree cannot be walked. -/
def walkWarning? (path : Path) : Account → Option String
  | .notWalked fault => some ("Skipping " ++ path.text ++ ": " ++ fault.message)
  | .reported _ | .notLoaded _ => none

end Account

section

variable (files : FileSystem) (explain : String → Option String) (search : Reference.Options)
  (paths : List Path)

/-- The reports on the files, in order. -/
def reportsOn : List (FileReport Reference) :=
  paths.filterMap fun path => (account explain search path (files.readText path)).report? path

/-- The files that are no trees, with the warnings about them, in order. -/
def notLoaded : List (Path × String) :=
  paths.filterMap fun path =>
    (account explain search path (files.readText path)).loadWarning?.map fun warning =>
      (path, warning)

/-- The files whose trees cannot be walked, with the warnings about them, in order. -/
def notWalked : List (Path × String) :=
  paths.filterMap fun path =>
    ((account explain search path (files.readText path)).walkWarning? path).map
      fun warning => (path, warning)

/-! ### The two stages -/

/-- What becomes of a file, stage by stage. -/
theorem account_eq (path : Path) :
    account explain search path (files.readText path) =
      match loadTree files explain path with
      | .error cause => .notLoaded cause
      | .ok tree =>
        match tree.freeReferences search with
        | .ok found => .reported found
        | .error fault => .notWalked fault := by
  unfold account loadTree
  cases files.readText path with
  | error cause => rfl
  | ok text =>
    dsimp only
    cases Node.ofText text <;> rfl

/-- The second stage reports on the files that pass both stages. -/
theorem referenceReports_loadedTrees :
    referenceReports search (loadedTrees files explain paths) =
      reportsOn files explain search paths := by
  rw [referenceReports, loadedTrees, List.filterMap_filterMap, reportsOn]
  refine List.filterMap_congr fun path _ => ?_
  rw [account_eq]
  cases loadTree files explain path with
  | error cause => rfl
  | ok tree => cases searched : tree.freeReferences search <;> simp [searched, Account.report?]

/-- The first stage warns about the files that are no trees. -/
theorem loadWarnings_eq :
    loadWarnings files explain paths = (notLoaded files explain search paths).map Prod.snd := by
  rw [loadWarnings, notLoaded, List.map_filterMap]
  refine List.filterMap_congr fun path _ => ?_
  rw [account_eq]
  cases loadTree files explain path with
  | error cause => rfl
  | ok tree => cases searched : tree.freeReferences search <;> simp [searched, Account.loadWarning?]

/-- The second stage warns about the files whose trees cannot be walked. -/
theorem walkWarnings_loadedTrees :
    walkWarnings search (loadedTrees files explain paths) =
      (notWalked files explain search paths).map Prod.snd := by
  rw [walkWarnings, loadedTrees, List.filterMap_filterMap, notWalked, List.map_filterMap]
  refine List.filterMap_congr fun path _ => ?_
  rw [account_eq]
  cases loadTree files explain path with
  | error cause => rfl
  | ok tree => cases searched : tree.freeReferences search <;> simp [searched, Account.walkWarning?]

/-- Every file is in one of the three lists, once. -/
theorem accounts_perm :
    ((reportsOn files explain search paths).map FileReport.path ++
      (notLoaded files explain search paths).map Prod.fst ++
      (notWalked files explain search paths).map Prod.fst).Perm paths := by
  induction paths with
  | nil => rfl
  | cons path rest inductionHypothesis =>
    rw [reportsOn, notLoaded, notWalked] at inductionHypothesis ⊢
    cases accounted : account explain search path (files.readText path) with
    | reported found =>
      simpa [accounted, Account.report?, Account.loadWarning?, Account.walkWarning?] using
        inductionHypothesis
    | notLoaded cause =>
      simp only [List.filterMap_cons, accounted, Account.report?, Account.loadWarning?,
        Account.walkWarning?, Option.map_some, Option.map_none, List.map_cons, List.append_assoc,
        List.cons_append] at inductionHypothesis ⊢
      exact List.perm_middle.trans (inductionHypothesis.cons path)
    | notWalked fault =>
      simp only [List.filterMap_cons, accounted, Account.report?, Account.loadWarning?,
        Account.walkWarning?, Option.map_some, Option.map_none, List.map_cons]
        at inductionHypothesis ⊢
      exact List.perm_middle.trans (inductionHypothesis.cons path)

/-! ### The exit code -/

theorem total_pos_iff {α : Type} (reports : List (FileReport α)) :
    0 < total reports ↔ ∃ report ∈ reports, report.found ≠ [] := by
  induction reports with
  | nil => simp [total]
  | cons report rest inductionHypothesis =>
    rw [total, List.foldr_cons, ← total, Nat.add_pos_iff_pos_or_pos, inductionHypothesis,
      List.length_pos_iff]
    simp

/-- A report is on the list if the file is, and is reported so. -/
theorem mem_reportsOn {report : FileReport Reference} :
    report ∈ reportsOn files explain search paths ↔
      report.path ∈ paths ∧
        account explain search report.path (files.readText report.path) =
          .reported report.found := by
  rw [reportsOn, List.mem_filterMap]
  constructor
  · rintro ⟨path, member, made⟩
    cases accounted : account explain search path (files.readText path) with
    | reported found =>
      rw [accounted] at made
      obtain rfl := Option.some.inj made
      exact ⟨member, accounted⟩
    | notLoaded cause => rw [accounted] at made; cases made
    | notWalked fault => rw [accounted] at made; cases made
  · rintro ⟨member, accounted⟩
    exact ⟨report.path, member, by rw [accounted]; rfl⟩

/-- A file is passed over by the first stage if it is no tree. -/
theorem mem_notLoaded {path : Path} {warning : String} :
    (path, warning) ∈ notLoaded files explain search paths ↔
      path ∈ paths ∧
        ∃ cause, loadTree files explain path = .error cause ∧ warning = cause.message := by
  have warned : (account explain search path (files.readText path)).loadWarning? = some warning ↔
      ∃ cause, loadTree files explain path = .error cause ∧ warning = cause.message := by
    rw [account_eq]
    cases loadTree files explain path with
    | error cause => simp [Account.loadWarning?, eq_comm]
    | ok tree =>
      cases searched : tree.freeReferences search <;> simp [searched, Account.loadWarning?]
  rw [← warned, notLoaded, List.mem_filterMap]
  constructor
  · rintro ⟨_, member, made⟩
    obtain ⟨_, told, equal⟩ := Option.map_eq_some_iff.mp made
    obtain ⟨rfl, rfl⟩ := Prod.mk.inj equal
    exact ⟨member, told⟩
  · rintro ⟨member, told⟩
    exact ⟨path, member, by rw [told]; rfl⟩

/-- A file is passed over by the second stage if its tree cannot be walked. -/
theorem mem_notWalked {path : Path} {warning : String} :
    (path, warning) ∈ notWalked files explain search paths ↔
      path ∈ paths ∧ ∃ tree fault, loadTree files explain path = .ok tree ∧
        tree.freeReferences search = .error fault ∧
        warning = "Skipping " ++ path.text ++ ": " ++ fault.message := by
  have warned :
      (account explain search path (files.readText path)).walkWarning? path = some warning ↔
      ∃ tree fault, loadTree files explain path = .ok tree ∧
        tree.freeReferences search = .error fault ∧
        warning = "Skipping " ++ path.text ++ ": " ++ fault.message := by
    rw [account_eq]
    cases loadTree files explain path with
    | error cause => simp [Account.walkWarning?]
    | ok tree =>
      cases searched : tree.freeReferences search <;>
        simp [searched, Account.walkWarning?, eq_comm]
  rw [← warned, notWalked, List.mem_filterMap]
  constructor
  · rintro ⟨_, member, made⟩
    obtain ⟨_, told, equal⟩ := Option.map_eq_some_iff.mp made
    obtain ⟨rfl, rfl⟩ := Prod.mk.inj equal
    exact ⟨member, told⟩
  · rintro ⟨member, told⟩
    exact ⟨path, member, by rw [told]; rfl⟩

end

/-- What a command tells people, in order. -/
def messages (notices : List Notice) : List String :=
  notices.filterMap fun notice =>
    match notice with
    | .message text => some text
    | .record _ => none

theorem messages_append (first second : List Notice) :
    messages (first ++ second) = messages first ++ messages second :=
  List.filterMap_append

theorem messages_records (events : List Event) : messages (events.map .record) = [] := by
  rw [messages, List.filterMap_map]
  exact List.filterMap_none events

theorem messages_warningNotices (colored : Bool) (warnings : List String) :
    messages (warningNotices colored warnings) = warnings.map (warningLine colored) := by
  rw [messages, warningNotices, List.filterMap_map, ← List.filterMap_eq_map]
  rfl

theorem messages_findings (findings : Findings) (colored : Bool) :
    messages (findings.notices colored) = findings.warnings.map (warningLine colored) := by
  have summary : messages [.record findings.summary] = [] := rfl
  rw [Findings.notices, messages_append, messages_append, messages_records,
    messages_warningNotices, summary, List.append_nil, List.nil_append]

/-! ### The command -/

theorem findReferences_eq (files : FileSystem) (explain : String → Option String) (config : Config)
    (options : Options) (colored : Bool) (paths : List Path) :
    let search : Reference.Options :=
      { globals := config.globals ++ options.globals, ignored := config.ignored }
    let reports := reportsOn files explain search paths
    let findings := findReferences files explain config options colored paths
    findings.report =
        (match options.format with
          | .json => (referencesValue reports).prettyText ++ "\n"
          | .pretty => referencesText colored reports) ∧
      findings.warnings =
        (notLoaded files explain search paths).map Prod.snd ++
          (notWalked files explain search paths).map Prod.snd ∧
      findings.code =
        if 0 < total reports && (options.failOnFree || config.failOnFree) then 1 else 0 := by
  intro search reports findings
  refine ⟨?_, ?_, ?_⟩
  · simp only [findings, reports, findReferences, ← referenceReports_loadedTrees]
    rfl
  · rw [← loadWarnings_eq, ← walkWarnings_loadedTrees]
    rfl
  · simp only [findings, reports, findReferences, ← referenceReports_loadedTrees]
    rfl

/-- A run of the search on a path that exists: its exit code, its output and its messages are those
of the search in the files that are found, after the warnings about the configuration. Where no
file is found, the output says so. -/
theorem run_free (files : FileSystem) (surroundings : Surroundings) (options : Options)
    (free : options.action = .free)
    (present : files.exists? (Path.ofText options.path) = true) :
    let path := Path.ofText options.path
    let explanations := surroundings.explanations
    let loaded := Config.loadNearest files path explanations.ofConfig
    let colored := surroundings.isColored options
    let paths := files.discover (fun path => loaded.config.isExcluded path.text) path
    let findings :=
      findReferences files explanations.ofDocument loaded.config options colored paths
    let result := run files surroundings options
    result.code = findings.code ∧
      result.output = (if paths = [] then "No ESTree JSON files found.\n" else findings.report) ∧
      messages result.notices =
        (loaded.warnings ++ findings.warnings).map (warningLine colored) := by
  intro path explanations loaded colored paths findings result
  simp only [result]
  unfold run
  rw [if_pos present]
  by_cases empty : paths = []
  · have nothing : findings.code = 0 ∧ findings.warnings = [] := by
      simp only [findings, empty]
      exact ⟨rfl, rfl⟩
    rw [if_pos (List.isEmpty_iff.mpr empty), nothing.1, nothing.2, List.append_nil,
      messages_append, messages_records, messages_warningNotices, List.append_nil, if_pos empty]
    exact ⟨rfl, rfl, rfl⟩
  · rw [if_neg fun equal => empty (List.isEmpty_iff.mp equal), free, if_neg empty]
    dsimp only
    refine ⟨rfl, rfl, ?_⟩
    rw [messages_append, messages_append, messages_records, messages_warningNotices,
      messages_findings, List.append_nil, List.map_append]

/-! ### One file among the others -/

theorem map_filterMap_sublist {Key Result : Type} (key : Result → Key)
    (result? : Key → Option Result) (keys : List Key)
    (own : ∀ name result, result? name = some result → key result = name) :
    ((keys.filterMap result?).map key).Sublist keys := by
  induction keys with
  | nil => exact List.Sublist.refl _
  | cons name rest inductionHypothesis =>
    rw [List.filterMap_cons]
    split
    · exact inductionHypothesis.cons name
    · rename_i result made
      rw [List.map_cons, own name result made]
      exact inductionHypothesis.cons_cons name

section

variable (files : FileSystem) (explain : String → Option String) (search : Reference.Options)
  (paths : List Path)

theorem reportsOn_sublist :
    ((reportsOn files explain search paths).map FileReport.path).Sublist paths := by
  refine map_filterMap_sublist _ _ _ fun path report made => ?_
  cases accounted : account explain search path (files.readText path) with
  | reported found =>
    rw [accounted] at made
    exact (Option.some.inj made) ▸ rfl
  | notLoaded cause => rw [accounted] at made; cases made
  | notWalked fault => rw [accounted] at made; cases made

theorem notLoaded_sublist :
    ((notLoaded files explain search paths).map Prod.fst).Sublist paths := by
  refine map_filterMap_sublist _ _ _ fun path entry made => ?_
  obtain ⟨_, _, rfl⟩ := Option.map_eq_some_iff.mp made
  rfl

theorem notWalked_sublist :
    ((notWalked files explain search paths).map Prod.fst).Sublist paths := by
  refine map_filterMap_sublist _ _ _ fun path entry made => ?_
  obtain ⟨_, _, rfl⟩ := Option.map_eq_some_iff.mp made
  rfl

/-- The files that are reported are reported alike without the others. -/
theorem reportsOn_reported :
    reportsOn files explain search ((reportsOn files explain search paths).map FileReport.path) =
      reportsOn files explain search paths := by
  induction paths with
  | nil => rfl
  | cons path rest inductionHypothesis =>
    rw [reportsOn, reportsOn] at inductionHypothesis ⊢
    cases accounted : account explain search path (files.readText path) with
    | reported found => simpa [accounted, Account.report?] using inductionHypothesis
    | notLoaded cause => simpa [accounted, Account.report?] using inductionHypothesis
    | notWalked fault => simpa [accounted, Account.report?] using inductionHypothesis

/-- A file is reported with the free references of its own tree. -/
theorem account_eq_reported {path : Path} {read : Except FileError String}
    {found : List Reference} :
    account explain search path read = .reported found ↔
      ∃ text tree, read = .ok text ∧ Node.ofText text = .ok tree ∧
        tree.freeReferences search = .ok found := by
  unfold account
  constructor
  · intro accounted
    split at accounted
    · cases accounted
    split at accounted
    · cases accounted
    split at accounted
    · rename_i _ text _ tree parsed _ found searched
      exact ⟨text, tree, rfl, parsed, Account.reported.inj accounted ▸ searched⟩
    · cases accounted
  · rintro ⟨text, tree, rfl, parsed, searched⟩
    simp only [parsed, searched]

end

/-- The search for free references accounts for every file that was found, once: in the reports, in
the warnings about files that are no trees, or in the warnings about trees that cannot be walked.
Each of the three lists is in the order in which the files were found, and the warnings of the
first sort come before those of the second. The reports are those of the trees that are searched. A
file is reported with the free references of its own tree, under the configured globals and those
of the command and without the configured ignored names. So what is reported for a file does not
depend on the other files. The command fails if and only if some file is reported with a reference
and the command or the configuration asks for it; without the files that were passed over it fails
alike. A run of the command on a path that exists has this exit code, puts out this report or that
there is no file, and tells the warnings after those about the configuration. -/
theorem free_command_accounts_for_every_file (files : FileSystem)
    (explain : String → Option String) (config : Config) (options : Options) (colored : Bool)
    (paths : List Path) :
    let search : Reference.Options :=
      { globals := config.globals ++ options.globals, ignored := config.ignored }
    let reports := reportsOn files explain search paths
    let unloaded := notLoaded files explain search paths
    let unwalked := notWalked files explain search paths
    let findings := findReferences files explain config options colored paths
    (reports.map FileReport.path ++ unloaded.map Prod.fst ++ unwalked.map Prod.fst).Perm paths ∧
      (reports.map FileReport.path).Sublist paths ∧ (unloaded.map Prod.fst).Sublist paths ∧
      (unwalked.map Prod.fst).Sublist paths ∧
      referenceReports search (loadedTrees files explain paths) = reports ∧
      (∀ report, report ∈ reports ↔ report.path ∈ paths ∧
        ∃ text tree, files.readText report.path = .ok text ∧ Node.ofText text = .ok tree ∧
          tree.freeReferences search = .ok report.found) ∧
      (∀ path warning, (path, warning) ∈ unloaded ↔ path ∈ paths ∧
        ∃ cause, loadTree files explain path = .error cause ∧ warning = cause.message) ∧
      (∀ path warning, (path, warning) ∈ unwalked ↔
        path ∈ paths ∧ ∃ tree fault, loadTree files explain path = .ok tree ∧
          tree.freeReferences search = .error fault ∧
          warning = "Skipping " ++ path.text ++ ": " ++ fault.message) ∧
      (∀ (otherFiles : FileSystem) (otherPaths : List Path) (report : FileReport Reference),
        report.path ∈ paths → report.path ∈ otherPaths →
        otherFiles.readText report.path = files.readText report.path →
          (report ∈ reportsOn otherFiles explain search otherPaths ↔ report ∈ reports)) ∧
      findings.report =
        (match options.format with
          | .json => (referencesValue reports).prettyText ++ "\n"
          | .pretty => referencesText colored reports) ∧
      findings.warnings = unloaded.map Prod.snd ++ unwalked.map Prod.snd ∧
      (findings.code = 1 ↔ (∃ report ∈ reports, report.found ≠ []) ∧
        (options.failOnFree = true ∨ config.failOnFree = true)) ∧
      (findings.code = 0 ∨ findings.code = 1) ∧
      findings.code =
        (findReferences files explain config options colored
          (reports.map FileReport.path)).code ∧
      ∀ surroundings : Surroundings, options.action = .free →
        files.exists? (Path.ofText options.path) = true →
        let explanations := surroundings.explanations
        let loaded := Config.loadNearest files (Path.ofText options.path) explanations.ofConfig
        let result := run files surroundings options
        explain = explanations.ofDocument → config = loaded.config →
        colored = surroundings.isColored options →
        paths = files.discover (fun path => config.isExcluded path.text)
          (Path.ofText options.path) →
          result.code = findings.code ∧
          result.output =
            (if paths = [] then "No ESTree JSON files found.\n" else findings.report) ∧
          messages result.notices =
            (loaded.warnings ++ findings.warnings).map (warningLine colored) := by
  intro search reports unloaded unwalked findings
  obtain ⟨report, warnings, code⟩ :=
    findReferences_eq files explain config options colored paths
  have rerun :=
    (findReferences_eq files explain config options colored (reports.map FileReport.path)).2.2
  rw [reportsOn_reported] at rerun
  refine ⟨accounts_perm files explain search paths, reportsOn_sublist files explain search paths,
    notLoaded_sublist files explain search paths, notWalked_sublist files explain search paths,
    referenceReports_loadedTrees files explain search paths, ?_,
    fun _ _ => mem_notLoaded files explain search paths,
    fun _ _ => mem_notWalked files explain search paths, ?_, report, warnings, ?_, ?_,
    code.trans rerun.symm, ?_⟩
  · intro report
    rw [mem_reportsOn, account_eq_reported]
  · intro otherFiles otherPaths report member otherMember sameText
    rw [mem_reportsOn, mem_reportsOn, sameText]
    exact and_congr_left fun _ => iff_of_true otherMember member
  · rw [code, ← total_pos_iff]
    cases options.failOnFree <;> cases config.failOnFree <;> simp [reports, search]
  · rw [code]
    split
    · exact Or.inr rfl
    · exact Or.inl rfl
  · rintro surroundings free present explanations loaded result rfl rfl rfl rfl
    exact run_free files surroundings options free present

/-- A directory with a file that has a free reference, a file that is no tree, and a file whose tree
cannot be walked. -/
def threeFiles : FileSystem :=
  { root := .directory
      [ ("broken.json", .file "[".toUTF8),
        ("malformed.json", .file "\x7b\"type\":\"ReturnStatement\",\"argument\":[]\x7d".toUTF8),
        ("name.json", .file "\x7b\"type\":\"Identifier\",\"name\":\"x\"\x7d".toUTF8) ],
    workingDirectory := [] }

/-- The files of the directory, in the order in which they are found. -/
def threePaths : List Path :=
  [Path.ofText "./broken.json", Path.ofText "./malformed.json", Path.ofText "./name.json"]

/-- The entries of the directory stand in the order of their names already. -/
theorem threeFiles_discover :
    threeFiles.discover (fun path => Config.default.isExcluded path.text) (Path.ofText ".") =
      threePaths := by
  have entered : threeFiles.entry (Path.ofText ".") = .ok threeFiles.root := by cbv
  have listed : threeFiles.isListed (Path.ofText ".") = true := by decide +kernel
  have sorted : inNameOrder ((["broken.json", "malformed.json", "name.json"].map
      FileName.ofText).zip (threePaths.map fun path => [path])) = _ :=
    List.mergeSort_of_pairwise (by decide +kernel)
  rw [FileSystem.discover, entered]
  simp only [threeFiles, filesAt]
  refine (if_pos listed).trans ((congrArg (fun named => (inNameOrder named).flatMap Prod.snd)
    ?_).trans (congrArg (List.flatMap Prod.snd) sorted))
  decide +kernel

/-- The last of these files alone. -/
def nameAlone : FileSystem :=
  { root := .directory
      [("name.json", .file "\x7b\"type\":\"Identifier\",\"name\":\"x\"\x7d".toUTF8)],
    workingDirectory := [] }

/-- The search of the directory, which fails if there is a free reference. -/
def failing : Options :=
  { action := .free, path := ".", format := .pretty, globals := ["y"], failOnFree := true,
    noColor := true, logLevel := .warn, logFile := none, logJson := false }

/-- A run without variables around it, and with readers that explain every text alike. -/
def plainly : Surroundings :=
  { forceColor := none, noColor := none, logFilter := none,
    explanations := { ofDocument := fun _ => some "no value", ofConfig := fun _ => none } }

theorem threeFiles_accounted_for :
    let explain := plainly.explanations.ofDocument
    let report : FileReport Reference := ⟨Path.ofText "./name.json", [⟨"x", none⟩]⟩
    let result := run threeFiles plainly failing
    reportsOn threeFiles explain ⟨["y"], []⟩ threePaths = [report] ∧
      report ∈ reportsOn nameAlone explain ⟨["y"], []⟩ [report.path] ∧ result.code = 1 ∧
      result.output = "./name.json:-: free `x`\n\nFound 1 free reference(s) in 1 file(s)\n" ∧
      messages result.notices =
        [ "warning: Skipping ./broken.json: Invalid JSON: no value\n",
          "warning: Skipping ./malformed.json: Malformed `ReturnStatement` node: " ++
            "slot 'argument' should hold a node or null\n" ] := by
  intro explain report result
  have present : threeFiles.exists? (Path.ofText ".") = true := by decide +kernel
  have config : Config.default = (Config.loadNearest threeFiles (Path.ofText ".")
      plainly.explanations.ofConfig).config := by
    decide +kernel
  have reported : reportsOn threeFiles explain ⟨["y"], []⟩ threePaths = [report] := by
    decide +kernel
  have sameText : nameAlone.readText report.path = threeFiles.readText report.path := by
    decide +kernel
  obtain ⟨_, _, _, _, _, _, _, _, independent, written, warned, fails, _, _, command⟩ :=
    free_command_accounts_for_every_file threeFiles explain Config.default failing false threePaths
  obtain ⟨code, output, told⟩ :=
    command plainly rfl present rfl config rfl threeFiles_discover.symm
  have found : report ∈ reportsOn threeFiles explain ⟨["y"], []⟩ threePaths := by
    rw [reported]
    exact List.mem_singleton.mpr rfl
  refine ⟨reported, ?_, ?_, ?_, ?_⟩
  · exact (independent nameAlone [report.path] report (by decide +kernel)
      (List.mem_singleton.mpr rfl) sameText).mpr found
  · exact code.trans (fails.mpr ⟨⟨report, found, List.cons_ne_nil _ _⟩, Or.inl rfl⟩)
  · refine output.trans ((if_neg (List.cons_ne_nil _ _)).trans (written.trans ?_))
    decide +kernel
  · rw [told, warned]
    decide +kernel

end EstreeScopes.Command
