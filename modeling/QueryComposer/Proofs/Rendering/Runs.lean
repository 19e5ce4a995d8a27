import QueryComposer.Files.Disk
import QueryComposer.Proofs.Rendering.Collection
import QueryComposer.Proofs.Rendering.Formats
import QueryComposer.Tool

/-!
# Runs over many files

A run collects files at the paths that it is given and renders one after the other.  On a file
system that stays as it is, what becomes of a file (`Render.Becomes`) depends on that file alone: it
adds one text to the report or one message, wherever it stands among the collected files and however
often (`Render.Accounted`).  What a walk meets below the paths is told before these messages
(`Render.walkErrors`).

* `Render.becomes_iff`: the renderer gives a file what becomes of it.
* `Render.message_visitFailures`: what is told of the walks are their obstacles, under the paths.
* `Render.accounted_renderPaths`: the renderer accounts for every file.
* `Render.accounts`: a run accounts for every file and treats the files independently.
-/

namespace QueryComposer

/-! ### File systems -/

namespace Files

/-- What can be seen of a file system that stays as it is: what lies at a path, and the bytes of the
file there. -/
structure System where
  tree : String → FileTree
  read : String → Except FileFault ByteArray
  /-- What is visited as a regular file below some path, and can be read, is a regular file when it
  is looked at by itself. -/
  tree_eq_file {origin path : String} {bytes : ByteArray} :
    .file path ∈ (tree origin).visits origin [] → read path = .ok bytes → tree path = .file

/-- On a disk, only a regular file has bytes. -/
theorem Disk.tree_eq_file {disk : Disk} {path : String} {bytes : ByteArray}
    (h : disk.read path = .ok bytes) : disk.tree path = .file := by
  obtain ⟨here, hresolve, hread⟩ := bind_eq_ok_iff.mp h
  split at hread
  · rename_i contents hnode
    rw [Disk.tree, hresolve]
    show disk.treeAt ((disk.root.size + 1) * (disk.root.size + 1)) path [here] here = .file
    -- The fuel is the successor of some number.
    rw [Nat.succ_mul, ← Nat.add_assoc, Disk.treeAt, hnode]
  · cases hread

/-- A disk as it stands. -/
def Disk.system (disk : Disk) : System := ⟨disk.tree, disk.read, fun _ => Disk.tree_eq_file⟩

end Files

namespace Render

open Files

/-! ### One file -/

/-- What becomes of the file at the path: the reason why it is not rendered, or what is written for
it. -/
inductive Becomes (explain : Explain) (read : ReadFile) (format : OutputFormat) (path : String) :
    Except FileError String → Prop where
  | unreadable {fault : FileFault} (hread : read path = .error fault) :
      Becomes explain read format path (.error (.unreadable fault))
  | notText {bytes : ByteArray} (hread : read path = .ok bytes)
      (htext : String.fromUTF8? bytes = none) :
      Becomes explain read format path (.error .notText)
  | notRequestFile {bytes : ByteArray} {text : String} (hread : read path = .ok bytes)
      (htext : String.fromUTF8? bytes = some text) (hfile : RequestFile.parse? text = none) :
      Becomes explain read format path (.error (.notRequestFile (explain text)))
  | notBuilt {bytes : ByteArray} {text : String} {file : RequestFile} {e : BuildError}
      (hread : read path = .ok bytes) (htext : String.fromUTF8? bytes = some text)
      (hfile : RequestFile.parse? text = some file) (hbuild : file.build.result = .error e) :
      Becomes explain read format path (.error (.notBuilt e))
  | written {bytes : ByteArray} {text : String} {file : RequestFile}
      {definitions : List Definition} (hread : read path = .ok bytes)
      (htext : String.fromUTF8? bytes = some text) (hfile : RequestFile.parse? text = some file)
      (hbuild : file.build.result = .ok definitions) :
      Becomes explain read format path (.ok (write format file.variableValues definitions))

section File

variable {explain : Explain} {read : ReadFile} {format : OutputFormat} {path : String}

/-- Of a file that can be loaded, what becomes of it is what the building gives. -/
theorem result_renderPath_of_load {bytes : ByteArray} {text : String} {file : RequestFile}
    (hread : read path = .ok bytes) (htext : String.fromUTF8? bytes = some text)
    (hfile : RequestFile.parse? text = some file) :
    (renderPath format explain read path).result =
      (file.build.result.mapError .notBuilt).map (write format file.variableValues) := by
  have hload : loadFile explain read path = .ok file := by
    simp only [loadFile, hread, htext, hfile]
  have hresult := result_renderFile format file
  simp only [renderPath, hload]
  cases hbuild : file.build.result with
  | error e =>
    rw [hbuild] at hresult
    simp only [hresult, Except.map, Except.mapError]
  | ok definitions =>
    rw [hbuild] at hresult
    simp only [hresult, Except.map, Except.mapError]

theorem Becomes.result_eq {r : Except FileError String} (h : Becomes explain read format path r) :
    (renderPath format explain read path).result = r := by
  cases h with
  | unreadable hread => simp only [renderPath, loadFile, hread]
  | notText hread htext => simp only [renderPath, loadFile, hread, htext]
  | notRequestFile hread htext hfile => simp only [renderPath, loadFile, hread, htext, hfile]
  | notBuilt hread htext hfile hbuild =>
    rw [result_renderPath_of_load hread htext hfile, hbuild]
    rfl
  | written hread htext hfile hbuild =>
    rw [result_renderPath_of_load hread htext hfile, hbuild]
    rfl

/-- Something becomes of every file. -/
theorem exists_becomes (explain : Explain) (read : ReadFile) (format : OutputFormat)
    (path : String) : ∃ r, Becomes explain read format path r := by
  cases hread : read path with
  | error fault => exact ⟨_, .unreadable hread⟩
  | ok bytes =>
    cases htext : String.fromUTF8? bytes with
    | none => exact ⟨_, .notText hread htext⟩
    | some text =>
      cases hfile : RequestFile.parse? text with
      | none => exact ⟨_, .notRequestFile hread htext hfile⟩
      | some file =>
        cases hbuild : file.build.result with
        | error e => exact ⟨_, .notBuilt hread htext hfile hbuild⟩
        | ok definitions => exact ⟨_, .written hread htext hfile hbuild⟩

/-- The renderer gives a file what becomes of it. -/
theorem becomes_iff {r : Except FileError String} :
    Becomes explain read format path r ↔ (renderPath format explain read path).result = r := by
  refine ⟨Becomes.result_eq, ?_⟩
  rintro rfl
  obtain ⟨r, hr⟩ := exists_becomes explain read format path
  exact hr.result_eq ▸ hr

/-- What is written was read. -/
theorem Becomes.exists_read {written : String}
    (h : Becomes explain read format path (.ok written)) : ∃ bytes, read path = .ok bytes := by
  cases h with
  | written hread htext hfile hbuild => exact ⟨_, hread⟩

end File

/-! ### One file after the other -/

/-- Going through the files in order, each adds what is written for it to the texts, or else one
message, which starts with its path, to the messages. -/
inductive Accounted (explain : Explain) (read : ReadFile) (format : OutputFormat) :
    (paths texts messages : List String) → Prop where
  | nil : Accounted explain read format [] [] []
  | written {path text : String} {paths texts messages : List String}
      (hfile : Becomes explain read format path (.ok text))
      (hrest : Accounted explain read format paths texts messages) :
      Accounted explain read format (path :: paths) (text :: texts) messages
  | failed {path : String} {e : FileError} {paths texts messages : List String}
      (hfile : Becomes explain read format path (.error e))
      (hrest : Accounted explain read format paths texts messages) :
      Accounted explain read format (path :: paths) texts
        ((Text.quoted path ++ ": " ++ e.message) :: messages)

namespace Accounted

variable {explain : Explain} {read : ReadFile} {format : OutputFormat}
  {paths texts messages : List String}

/-- Every file is counted once. -/
theorem length_eq (h : Accounted explain read format paths texts messages) :
    texts.length + messages.length = paths.length := by
  induction h with
  | nil => rfl
  | written hfile hrest ih =>
    rw [List.length_cons, List.length_cons]
    omega
  | failed hfile hrest ih =>
    rw [List.length_cons, List.length_cons]
    omega

/-- The files decide what there is of texts and messages. -/
theorem unique (h : Accounted explain read format paths texts messages)
    {texts' messages' : List String}
    (h' : Accounted explain read format paths texts' messages') :
    texts' = texts ∧ messages' = messages := by
  induction h generalizing texts' messages' with
  | nil =>
    cases h'
    exact ⟨rfl, rfl⟩
  | written hfile hrest ih =>
    cases h' with
    | written hfile' hrest' =>
      obtain ⟨rfl, rfl⟩ := ih hrest'
      exact ⟨congrArg (· :: _) (Except.ok.inj (hfile'.result_eq.symm.trans hfile.result_eq)), rfl⟩
    | failed hfile' hrest' => cases hfile'.result_eq.symm.trans hfile.result_eq
  | failed hfile hrest ih =>
    cases h' with
    | written hfile' hrest' => cases hfile'.result_eq.symm.trans hfile.result_eq
    | failed hfile' hrest' =>
      obtain ⟨rfl, rfl⟩ := ih hrest'
      obtain rfl := Except.error.inj (hfile'.result_eq.symm.trans hfile.result_eq)
      exact ⟨rfl, rfl⟩

/-- A file that fails has its message. -/
theorem message_mem (h : Accounted explain read format paths texts messages) {path : String}
    (hpath : path ∈ paths) {e : FileError} (he : Becomes explain read format path (.error e)) :
    Text.quoted path ++ ": " ++ e.message ∈ messages := by
  induction h with
  | nil => cases hpath
  | written hfile hrest ih =>
    rcases List.mem_cons.mp hpath with rfl | hpath
    · cases he.result_eq.symm.trans hfile.result_eq
    · exact ih hpath
  | failed hfile hrest ih =>
    rcases List.mem_cons.mp hpath with rfl | hpath
    · obtain rfl := Except.error.inj (he.result_eq.symm.trans hfile.result_eq)
      exact List.mem_cons_self ..
    · exact List.mem_cons_of_mem _ (ih hpath)

end Accounted

/-- The renderer accounts for every file. -/
theorem accounted_renderPaths (explain : Explain) (read : ReadFile) (format : OutputFormat)
    (paths : List String) :
    Accounted explain read format paths
      ((renderPaths format explain read paths).filterMap rendered?)
      (((renderPaths format explain read paths).filterMap failure?).map Failure.message) := by
  induction paths with
  | nil => exact .nil
  | cons path paths ih =>
    have hfile := becomes_iff.mpr (Eq.refl (renderPath format explain read path).result)
    rw [renderPaths, List.map_cons, List.filterMap_cons, List.filterMap_cons]
    cases hresult : (renderPath format explain read path).result with
    | error e =>
      rw [hresult] at hfile
      simp only [rendered?, failure?, hresult, Except.toOption]
      exact .failed hfile ih
    | ok text =>
      rw [hresult] at hfile
      simp only [rendered?, failure?, hresult, Except.toOption]
      exact .written hfile ih

/-! ### Runs -/

section Runs

variable (explain : Explain) (fs : System) (format : OutputFormat) (extensions : List String)

/-- What lies at the paths of a run. -/
def treesAt (paths : List String) : Trees := paths.map fun path => (path, fs.tree path)

/-- The files that a run renders. -/
def collected (paths : List String) : List String := filePaths extensions (treesAt fs paths)

/-- What is told of the walks of a run: for each path, in order, the obstacles that are met below
it, in order, each under the path in quotes. -/
def walkErrors (paths : List String) : List String :=
  paths.flatMap fun path =>
    (obstacles ((fs.tree path).visits path [])).map fun o =>
      Text.quoted path ++ ": " ++ o.describe

/-- What a run over the paths has produced. -/
def reportOn (paths : List String) : Report :=
  (run ⟨format, extensions, paths⟩ (treesAt fs paths) fs.read explain).report

/-- What could not be visited is told as the obstacles of the walks. -/
theorem message_visitFailures (paths : List String) :
    (visitFailures extensions (treesAt fs paths)).map Failure.message = walkErrors fs paths := by
  rw [visitFailures, treesAt, List.flatMap_map, List.map_flatMap, walkErrors]
  refine List.flatMap_congr fun path _ => ?_
  show ((collectAt extensions path (fs.tree path)).obstacles.map _).map Failure.message = _
  rw [obstacles_collectAt, List.map_map]
  rfl

theorem rendered_reportOn (paths : List String) :
    (reportOn explain fs format extensions paths).rendered =
      (renderPaths format explain fs.read (collected fs extensions paths)).filterMap rendered? :=
  rfl

/-- The errors of a run are those of the walks, then those of the files. -/
theorem errors_reportOn (paths : List String) :
    (reportOn explain fs format extensions paths).errors = walkErrors fs paths ++
      ((renderPaths format explain fs.read (collected fs extensions paths)).filterMap
        failure?).map Failure.message := by
  rw [← message_visitFailures fs extensions]
  exact List.map_append

/-- Behind the errors of the walks there is one message for each file that fails. -/
theorem exists_accounted (paths : List String) :
    ∃ messages, Accounted explain fs.read format (collected fs extensions paths)
      (reportOn explain fs format extensions paths).rendered messages ∧
        (reportOn explain fs format extensions paths).errors = walkErrors fs paths ++ messages :=
  ⟨_, accounted_renderPaths explain fs.read format _,
    errors_reportOn explain fs format extensions paths⟩

variable {explain fs format extensions}

theorem collected_append (P Q : List String) :
    collected fs extensions (P ++ Q) = collected fs extensions P ++ collected fs extensions Q := by
  rw [collected, treesAt, List.map_append, filePaths, List.flatMap_append]
  rfl

theorem collected_singleton (path : String) :
    collected fs extensions [path] = (collectAt extensions path (fs.tree path)).paths :=
  List.append_nil _

/-- Whatever is collected was visited below one of the paths. -/
theorem exists_file_mem_visits {paths : List String} {path : String}
    (h : path ∈ collected fs extensions paths) :
    ∃ origin ∈ paths, .file path ∈ (fs.tree origin).visits origin [] := by
  obtain ⟨_, htree, hpath⟩ := List.mem_flatMap.mp h
  obtain ⟨origin, horigin, rfl⟩ := List.mem_map.mp htree
  exact ⟨origin, horigin, file_mem_visits_of_mem_paths hpath⟩

/-- What is written for a collected file was read from a regular file. -/
theorem Becomes.tree_eq_file {paths : List String} {path written : String}
    (h : Becomes explain fs.read format path (.ok written))
    (hpath : path ∈ collected fs extensions paths) : fs.tree path = .file := by
  obtain ⟨bytes, hread⟩ := h.exists_read
  obtain ⟨origin, _, hvisit⟩ := exists_file_mem_visits hpath
  exact fs.tree_eq_file hvisit hread

theorem rendered_append (P Q : List String) :
    (reportOn explain fs format extensions (P ++ Q)).rendered =
      (reportOn explain fs format extensions P).rendered ++
        (reportOn explain fs format extensions Q).rendered := by
  rw [rendered_reportOn, collected_append, renderPaths, List.map_append, List.filterMap_append]
  rfl

/-- A path to a regular file is rendered by itself. -/
theorem reportOn_singleton {path : String} (h : fs.tree path = .file) :
    reportOn explain fs format extensions [path] =
      ⟨[(path, renderPath format explain fs.read path)].filterMap rendered?,
        [(path, renderPath format explain fs.read path)].filterMap failure?⟩ := by
  rw [reportOn, treesAt, List.map_singleton, h]
  rfl

end Runs

/-! ### The outcome -/

namespace Report

theorem errors_eq_nil_iff {r : Report} : r.errors = [] ↔ r.failures = [] :=
  List.map_eq_nil_iff

/-- A run succeeds when nothing failed and something was rendered. -/
theorem outcome_eq_ok_iff {r : Report} {text : String} :
    r.outcome = .ok text ↔
      r.errors = [] ∧ r.rendered ≠ [] ∧ text = "\n".intercalate r.rendered := by
  obtain ⟨rendered, failures⟩ := r
  rw [errors_eq_nil_iff, ← Text.joinWith_eq_intercalate]
  cases failures with
  | cons failure failures =>
    refine ⟨fun h => ?_, fun h => ?_⟩
    · cases h
    · cases h.1
  | nil =>
    cases rendered with
    | nil =>
      refine ⟨fun h => ?_, fun h => absurd rfl h.2.1⟩
      cases h
    | cons first rest =>
      refine ⟨fun h => ⟨rfl, List.cons_ne_nil first rest, (Except.ok.inj h).symm⟩, ?_⟩
      rintro ⟨-, -, rfl⟩
      rfl

/-- A run fails as soon as something has failed. -/
theorem outcome_of_errors {r : Report} (h : r.errors ≠ []) :
    ∃ message, r.outcome = .error message := by
  cases houtcome : r.outcome with
  | error message => exact ⟨message, rfl⟩
  | ok text => exact absurd (outcome_eq_ok_iff.mp houtcome).1 h

end Report

/-- The tool exits without an error code when its run succeeds. -/
theorem code_act_render {wording : Tool.Wording} {fs : System} {format : OutputFormat}
    {extensions paths : List String} :
    (Tool.act wording (.render ⟨format, extensions, paths⟩) fs.tree fs.read).code = 0 ↔
      ∃ text, (reportOn wording.explain fs format extensions paths).outcome = .ok text := by
  show (Tool.render wording ⟨format, extensions, paths⟩ (treesAt fs paths) fs.read).code = 0 ↔ _
  rw [reportOn, Tool.render]
  split
  · rename_i text houtcome
    exact iff_of_true rfl ⟨text, houtcome⟩
  · rename_i message houtcome
    refine iff_of_false Nat.one_ne_zero ?_
    rintro ⟨text, htext⟩
    cases houtcome.symm.trans htext

/-! ### The account of a run -/

/-- A run accounts for every file and treats the files independently. -/
structure Accounts (explain : Explain) (fs : System) (format : OutputFormat)
    (extensions : List String) : Prop where
  /-- The files below more paths come after the files below the first ones. -/
  collected_append : ∀ P Q,
    collected fs extensions (P ++ Q) = collected fs extensions P ++ collected fs extensions Q
  /-- So do the errors of the walks. -/
  walkErrors_append : ∀ P Q, walkErrors fs (P ++ Q) = walkErrors fs P ++ walkErrors fs Q
  /-- Each walk finds the wanted files and meets the obstacles that there are. -/
  walks : ∀ path, (fs.tree path).IsNamed →
    WalksExactly extensions path (fs.tree path) (collected fs extensions [path])
      (obstacles ((fs.tree path).visits path []))
  /-- One thing becomes of each file. -/
  becomes : ∀ path, ∃! r, Becomes explain fs.read format path r
  /-- In the order of the files, each adds its text or its message, the messages standing behind
  the errors of the walks. -/
  accounted : ∀ P, ∃ messages, Accounted explain fs.read format (collected fs extensions P)
    (reportOn explain fs format extensions P).rendered messages ∧
      (reportOn explain fs format extensions P).errors = walkErrors fs P ++ messages
  /-- A text is what the file is rendered as when it is the only one. -/
  alone : ∀ P, ∀ path ∈ collected fs extensions P, ∀ text,
    Becomes explain fs.read format path (.ok text) →
      reportOn explain fs format extensions [path] = ⟨[text], []⟩
  /-- A regular file that fails does so too when it is the only one. -/
  alone_failed : ∀ path e, fs.tree path = .file → Becomes explain fs.read format path (.error e) →
    reportOn explain fs format extensions [path] = ⟨[], [.unrendered path e]⟩
  rendered_append : ∀ P Q, (reportOn explain fs format extensions (P ++ Q)).rendered =
    (reportOn explain fs format extensions P).rendered ++
      (reportOn explain fs format extensions Q).rendered
  /-- Nothing is lost and nothing is added. -/
  length : ∀ P,
    (reportOn explain fs format extensions P).rendered.length +
        (reportOn explain fs format extensions P).errors.length =
      (collected fs extensions P).length + (walkErrors fs P).length
  /-- A run succeeds when it has no error and some text, with the texts on lines of their own. -/
  outcome_eq_ok_iff : ∀ P text, (reportOn explain fs format extensions P).outcome = .ok text ↔
    (reportOn explain fs format extensions P).errors = [] ∧
      (reportOn explain fs format extensions P).rendered ≠ [] ∧
        text = "\n".intercalate (reportOn explain fs format extensions P).rendered
  /-- One file that fails makes the run fail. -/
  outcome_of_failed : ∀ P, ∀ path ∈ collected fs extensions P, ∀ e,
    Becomes explain fs.read format path (.error e) →
      ∃ message, (reportOn explain fs format extensions P).outcome = .error message

/-- **A run accounts for every file.** -/
theorem accounts (explain : Explain) (fs : System) (format : OutputFormat)
    (extensions : List String) : Accounts explain fs format extensions where
  collected_append := collected_append
  walkErrors_append P Q := List.flatMap_append
  walks path h := collected_singleton path ▸ walksExactly_collectAt h extensions path
  becomes path := by
    obtain ⟨r, hr⟩ := exists_becomes explain fs.read format path
    exact ⟨r, hr, fun r' hr' => hr'.result_eq.symm.trans hr.result_eq⟩
  accounted := exists_accounted explain fs format extensions
  alone P path hpath text h := by
    rw [reportOn_singleton (h.tree_eq_file hpath)]
    simp [rendered?, failure?, h.result_eq, Except.toOption]
  alone_failed path e hfile h := by
    rw [reportOn_singleton hfile]
    simp [rendered?, failure?, h.result_eq, Except.toOption]
  rendered_append := rendered_append
  length P := by
    obtain ⟨messages, haccounted, herrors⟩ := exists_accounted explain fs format extensions P
    have hfiles := haccounted.length_eq
    rw [herrors, List.length_append]
    omega
  outcome_eq_ok_iff P text := Report.outcome_eq_ok_iff
  outcome_of_failed P path hpath e he := by
    obtain ⟨messages, haccounted, herrors⟩ := exists_accounted explain fs format extensions P
    refine Report.outcome_of_errors fun hnil => ?_
    have hmessage := haccounted.message_mem hpath he
    rw [(List.append_eq_nil_iff.mp (herrors.symm.trans hnil)).2] at hmessage
    cases hmessage

/-- A directory with two files, a link to nothing and a pipe. -/
def mixedEntries : List (String × FileTree) :=
  [("pipe.json", .special), ("link.json", .unreadable .missing), ("b.json", .file),
    ("a.json", .file)]

theorem visits_mixedEntries : (FileTree.directory mixedEntries).visits "d" [] =
    [.other "d", .file "d/a.json", .file "d/b.json", .obstacle (.fault "d/link.json" .missing),
      .other "d/pipe.json"] := by
  -- Sorting does not reduce, so the order of the entries is found first.
  have hsorted : byName mixedEntries = [("a.json", .file), ("b.json", .file),
      ("link.json", .unreadable .missing), ("pipe.json", .special)] := by
    simp [byName, mixedEntries, List.mergeSort]
  rw [visits_directory, hsorted]
  decide +kernel

/-- The directory stands alone.  One of its files holds a request, and so does what comes out of the
pipe; the other file holds a text that breaks off. -/
def mixedSystem : System where
  tree path :=
    if path = "d" then .directory mixedEntries
    else if path = "d/a.json" ∨ path = "d/b.json" then .file
    else if path = "d/pipe.json" then .special
    else .unreadable .missing
  read path :=
    let operation := "\x7b\"kind\":\"query\",\"name\":\"Q\",\"selection_set\":[\"x\"]\x7d"
    if path = "d/a.json" ∨ path = "d/pipe.json" then
      .ok ("\x7b\"definitions\":[\x7b\"operation\":" ++ operation ++ "\x7d]\x7d").toUTF8
    else if path = "d/b.json" then .ok "\x7b".toUTF8
    else .error .missing
  tree_eq_file {origin path bytes} hvisit _ := by
    split at hvisit
    · rename_i hdirectory
      subst hdirectory
      have hpath : path = "d/a.json" ∨ path = "d/b.json" := by
        simpa [visits_mixedEntries] using hvisit
      rcases hpath with rfl | rfl <;> rfl
    · split at hvisit
      · rename_i hdirectory hfile
        cases List.mem_singleton.mp hvisit
        rw [if_neg hdirectory, if_pos hfile]
      · split at hvisit <;> cases List.mem_singleton.mp hvisit

/-- The link is told of before the text that breaks off, and nothing is told of the pipe. -/
theorem accounts_mixedSystem :
    let explain : Explain := fun _ => "EOF while parsing an object at line 1 column 1"
    let report := reportOn explain mixedSystem .text ["json"]
    let link := "\"d\": IO error for operation on d/link.json: " ++
      "No such file or directory (os error 2)"
    let broken := "\"d/b.json\": EOF while parsing an object at line 1 column 1"
    Accounts explain mixedSystem .text ["json"] ∧ (mixedSystem.tree "d").IsNamed ∧
      collected mixedSystem ["json"] ["d"] = ["d/a.json", "d/b.json"] ∧
      walkErrors mixedSystem ["d"] = [link] ∧
      (report ["d"]).rendered = ["query Q \x7b x \x7d"] ∧
      (report ["d"]).errors = [link, broken] ∧
      (∃ message, (report ["d"]).outcome = .error message) ∧
      (report ["d/a.json"]).outcome = .ok "query Q \x7b x \x7d" := by
  intro explain report link broken
  have haccounts := accounts explain mixedSystem .text ["json"]
  have htree : mixedSystem.tree "d" = .directory mixedEntries := rfl
  have hnamed : (mixedSystem.tree "d").IsNamed := by
    rw [htree]
    refine .directory (by decide +kernel) (by decide +kernel) fun entry hentry => .other ?_
    simp only [mixedEntries, List.mem_cons, List.not_mem_nil, or_false] at hentry
    rcases hentry with rfl | rfl | rfl | rfl <;> exact fun _ hdirectory => by cases hdirectory
  have hcollected : collected mixedSystem ["json"] ["d"] = ["d/a.json", "d/b.json"] := by
    rw [collected_singleton, htree, collectAt_of_ne_file _ _ (by rintro ⟨⟩), visits_mixedEntries]
    decide +kernel
  have hwalk : walkErrors mixedSystem ["d"] = [link] := by
    rw [walkErrors, List.flatMap_singleton, htree, visits_mixedEntries]
    decide +kernel
  have hwritten : Becomes explain mixedSystem.read .text "d/a.json"
      (.ok "query Q \x7b x \x7d") := becomes_iff.mpr (by decide +kernel)
  have hbroken : Becomes explain mixedSystem.read .text "d/b.json"
      (.error (.notRequestFile (explain "\x7b"))) := becomes_iff.mpr (by decide +kernel)
  have hmessage : Text.quoted "d/b.json" ++ ": " ++
      (FileError.notRequestFile (explain "\x7b")).message = broken := by decide +kernel
  have haccounted : Accounted explain mixedSystem.read .text ["d/a.json", "d/b.json"]
      ["query Q \x7b x \x7d"] [broken] := hmessage ▸ .written hwritten (.failed hbroken .nil)
  obtain ⟨messages, hmessages, herrors⟩ := haccounts.accounted ["d"]
  rw [hcollected] at hmessages
  obtain ⟨hrendered, rfl⟩ := haccounted.unique hmessages
  have hmem : ∀ path ∈ ["d/a.json", "d/b.json"], path ∈ collected mixedSystem ["json"] ["d"] :=
    fun _ hpath => hcollected.symm ▸ hpath
  have hfailed := haccounts.outcome_of_failed ["d"] "d/b.json" (hmem _ (by simp)) _ hbroken
  have halone : report ["d/a.json"] = ⟨["query Q \x7b x \x7d"], []⟩ :=
    haccounts.alone ["d"] "d/a.json" (hmem _ (by simp)) _ hwritten
  rw [hwalk] at herrors
  rw [halone]
  exact ⟨haccounts, hnamed, hcollected, hwalk, hrendered, herrors, hfailed, by decide +kernel⟩

end Render

end QueryComposer
