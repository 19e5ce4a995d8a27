import Mathlib.Data.List.Flatten
import Mathlib.Data.List.TakeWhile
import QueryComposer.Proofs.Files.Visits
import QueryComposer.Render.Report

/-!
# Collecting files is exact

Which files a run renders is known from what lies at its paths.  A file that is named itself is
rendered whatever its name is; below a directory these are the regular files that have a wanted
extension (`Render.HasExtension`), each once, in the order of their paths.

Main statement: `Render.collectsExactly`.
-/

namespace QueryComposer

/-! ### Extensions of paths -/

namespace Files

/-- The extension is what follows the last point, before which something has to stand. -/
theorem extensionOf?_eq_some_iff {name extension : List Char} :
    extensionOf? name = some extension ↔
      ∃ stem, name = stem ++ '.' :: extension ∧ stem ≠ [] ∧ '.' ∉ extension := by
  have hname : name = (name.reverse.dropWhile (· ≠ '.')).reverse ++
      (name.reverse.takeWhile (· ≠ '.')).reverse := by
    rw [← List.reverse_append, List.takeWhile_append_dropWhile, List.reverse_reverse]
  -- Backwards, a name begins with its extension, and the point comes next.
  constructor
  · intro h
    have hhead := List.head?_dropWhile_not (· ≠ '.') name.reverse
    rw [extensionOf?] at h
    split at h
    · cases h
    · cases h
    · rename_i hnil hsingle
      obtain rfl := Option.some.inj h
      obtain ⟨c, rest, hdrop⟩ := List.exists_cons_of_ne_nil hnil
      rw [hdrop, List.head?_cons] at hhead
      obtain rfl : c = '.' := by simpa using hhead
      refine ⟨rest.reverse, ?_, ?_, ?_⟩
      · rw [hdrop, List.reverse_cons, List.append_assoc] at hname
        exact hname
      · rintro hrest
        exact hsingle '.' (by rw [hdrop, List.reverse_eq_nil_iff.mp hrest])
      · intro hmem
        simpa using List.mem_takeWhile_imp (List.mem_reverse.mp hmem)
  · rintro ⟨stem, rfl, hstem, hextension⟩
    obtain ⟨c, rest, hrest⟩ := List.exists_cons_of_ne_nil (List.reverse_ne_nil_iff.mpr hstem)
    have hreverse : (stem ++ '.' :: extension).reverse =
        extension.reverse ++ '.' :: c :: rest := by
      rw [List.reverse_append, List.reverse_cons, hrest, List.append_assoc]
      rfl
    have hbefore : ∀ d ∈ extension.reverse, decide (d ≠ '.') = true := by
      intro d hd
      refine decide_eq_true ?_
      rintro rfl
      exact hextension (List.mem_reverse.mp hd)
    rw [extensionOf?, hreverse, List.dropWhile_append_of_pos hbefore,
      List.takeWhile_append_of_pos hbefore, List.dropWhile_cons_of_neg (by decide),
      List.takeWhile_cons_of_neg (by decide)]
    simp

/-- A path below a directory has the extension of its last name. -/
theorem extension?_joinPath (path : String) {name : String} (h : IsEntryName name) :
    extension? (joinPath path name) = (extensionOf? name.toList).map String.ofList := by
  have hlast : (components (joinPath path name)).getLast? = some name := by
    rw [components_joinPath path h, List.getLast?_concat]
  rw [components, Text.split, List.getLast?_map] at hlast
  obtain ⟨part, hpart, rfl⟩ := Option.map_eq_some_iff.mp hlast
  rw [extension?, hpart, Option.bind_some, String.toList_ofList]

end Files

namespace Render

open Files

/-! ### Wanted files -/

theorem mem_map_bareExtension_iff {extensions : List String} {extension : List Char}
    (h : '.' ∉ extension) :
    String.ofList extension ∈ extensions.map bareExtension ↔
      ∃ dots, String.ofList (List.replicate dots '.' ++ extension) ∈ extensions := by
  rw [List.mem_map]
  constructor
  · rintro ⟨spelled, hspelled, hbare⟩
    obtain ⟨dots, hdots⟩ :
        ∃ dots, spelled.toList.takeWhile (· = '.') = List.replicate dots '.' :=
      ⟨_, List.eq_replicate_iff.mpr
        ⟨rfl, fun c hc => by simpa using List.mem_takeWhile_imp hc⟩⟩
    refine ⟨dots, ?_⟩
    rw [← hdots, ← String.ofList_injective hbare, List.takeWhile_append_dropWhile,
      String.ofList_toList]
    exact hspelled
  · rintro ⟨dots, hspelled⟩
    refine ⟨_, hspelled, ?_⟩
    have hbefore : ∀ c ∈ List.replicate dots '.', decide (c = '.') = true :=
      fun c hc => decide_eq_true (List.eq_of_mem_replicate hc)
    rw [bareExtension, String.toList_ofList, List.dropWhile_append_of_pos hbefore]
    cases extension with
    | nil => rfl
    | cons c rest =>
      have hc : c ≠ '.' := (List.ne_and_not_mem_of_not_mem_cons h).1.symm
      rw [List.dropWhile_cons, decide_eq_false hc]
      rfl

/-- The name has a point behind its first character, and what follows the last point is one of the
extensions, which may be spelled with dots in front. -/
def HasExtension (extensions : List String) (name : String) : Prop :=
  ∃ stem extension : List Char, name.toList = stem ++ '.' :: extension ∧ stem ≠ [] ∧
    '.' ∉ extension ∧ ∃ dots, String.ofList (List.replicate dots '.' ++ extension) ∈ extensions

theorem isWanted_joinPath_iff {extensions : List String} {path name : String}
    (h : IsEntryName name) :
    isWanted extensions (joinPath path name) = true ↔ HasExtension extensions name := by
  rw [isWanted, extension?_joinPath path h]
  constructor
  · intro hwanted
    split at hwanted
    · cases hwanted
    · rename_i found hfound
      obtain ⟨extension, hextension, rfl⟩ := Option.map_eq_some_iff.mp hfound
      obtain ⟨stem, hname, hstem, hpoint⟩ := extensionOf?_eq_some_iff.mp hextension
      exact ⟨stem, extension, hname, hstem, hpoint,
        (mem_map_bareExtension_iff hpoint).mp (List.contains_iff_mem.mp hwanted)⟩
  · rintro ⟨stem, extension, hname, hstem, hpoint, hspelled⟩
    rw [extensionOf?_eq_some_iff.mpr ⟨stem, hname, hstem, hpoint⟩]
    exact List.contains_iff_mem.mpr ((mem_map_bareExtension_iff hpoint).mpr hspelled)

/-- More extensions let more files through. -/
theorem isWanted_of_subset {extensions extensions' : List String}
    (h : extensions.map bareExtension ⊆ extensions'.map bareExtension) {path : String}
    (hwanted : isWanted extensions path = true) : isWanted extensions' path = true := by
  rw [isWanted] at hwanted ⊢
  split at hwanted
  · cases hwanted
  · exact List.contains_iff_mem.mpr (h (List.contains_iff_mem.mp hwanted))

/-! ### One path -/

theorem paths_ofVisits (extensions : List String) (visits : List Visit) :
    (ofVisits extensions visits).paths =
      (regularFiles visits).filter (isWanted extensions) := by
  rw [ofVisits, regularFiles, List.filter_filterMap]
  refine List.filterMap_congr fun visit _ => ?_
  cases visit <;> rfl

theorem collectAt_of_ne_file (extensions : List String) (path : String) {tree : FileTree}
    (h : tree ≠ .file) :
    collectAt extensions path tree = ofVisits extensions (tree.visits path []) := by
  cases tree with
  | file => exact absurd rfl h
  | directory | special | locked | unreadable | loop => rfl

/-- Whatever is found was visited. -/
theorem file_mem_visits_of_mem_paths {extensions : List String} {path p : String} {tree : FileTree}
    (h : p ∈ (collectAt extensions path tree).paths) : .file p ∈ tree.visits path [] := by
  by_cases hfile : tree = .file
  · subst hfile
    exact List.mem_singleton.mpr (congrArg Visit.file (List.mem_singleton.mp h))
  · rw [collectAt_of_ne_file _ _ hfile, paths_ofVisits] at h
    exact mem_regularFiles.mp (List.mem_of_mem_filter h)

theorem paths_collectAt_sublist {extensions extensions' : List String}
    (h : extensions.map bareExtension ⊆ extensions'.map bareExtension) (path : String)
    (tree : FileTree) :
    (collectAt extensions path tree).paths.Sublist (collectAt extensions' path tree).paths := by
  by_cases hfile : tree = .file
  · subst hfile
    exact List.Sublist.refl _
  · rw [collectAt_of_ne_file _ _ hfile, collectAt_of_ne_file _ _ hfile, paths_ofVisits,
      paths_ofVisits]
    exact List.monotone_filter_right _ fun p hp => isWanted_of_subset h hp

/-- What cannot be visited are the obstacles of the visit.  The extensions do not matter, and a path
to a regular file, which is not visited, has none. -/
theorem obstacles_collectAt (extensions : List String) (path : String) (tree : FileTree) :
    (collectAt extensions path tree).obstacles = obstacles (tree.visits path []) := by
  have hobstacles : ∀ visits, (ofVisits extensions visits).obstacles = obstacles visits := by
    intro visits
    refine List.filterMap_congr fun visit _ => ?_
    cases visit <;> rfl
  by_cases hfile : tree = .file
  · subst hfile
    rfl
  · rw [collectAt_of_ne_file _ _ hfile, hobstacles]

/-- What is found below the directory at the path. -/
structure FoundBelow (extensions : List String) (path : String)
    (entries : List (String × FileTree)) (found : List String) : Prop where
  /-- The regular files with a wanted extension are found, at any depth, and nothing else is, -/
  mem_iff : ∀ p, p ∈ found ↔ ∃ names name, p = below path (names ++ [name]) ∧
    (FileTree.directory entries).at? (names ++ [name]) = some .file ∧ HasExtension extensions name
  /-- each once, -/
  nodup : found.Nodup
  /-- under a path of its own, -/
  injective : ∀ names names', (FileTree.directory entries).at? names = some .file →
    (FileTree.directory entries).at? names' = some .file →
    below path names = below path names' → names = names'
  /-- and in the order of the paths. -/
  sorted : found.Pairwise PathLt

theorem foundBelow_collectAt {entries : List (String × FileTree)}
    (h : (FileTree.directory entries).IsNamed) (extensions : List String) (path : String) :
    FoundBelow extensions path entries (collectAt extensions path (.directory entries)).paths := by
  have hexact := h.visitsExactly path []
  have hpaths : (collectAt extensions path (.directory entries)).paths =
      (regularFiles ((FileTree.directory entries).visits path [])).filter
        (isWanted extensions) := paths_ofVisits _ _
  have hsorted := hexact.pairwise_regularFiles.filter (isWanted extensions)
  rw [hpaths]
  constructor
  case sorted => exact hsorted
  case nodup =>
    refine hsorted.imp ?_
    rintro p _ hlt rfl
    exact List.lt_irrefl _ hlt
  case injective =>
    have hne : ∀ {names}, (FileTree.directory entries).at? names = some .file → names ≠ [] := by
      rintro _ hat rfl
      cases hat
    intro names names' hat hat' hsame
    have hparts := components_below (h.isEntryName_of_at? hat) (hne hat) path
    rw [hsame, components_below (h.isEntryName_of_at? hat') (hne hat') path] at hparts
    exact (List.append_cancel_left hparts).symm
  case mem_iff =>
    intro p
    rw [List.mem_filter, mem_regularFiles, hexact.file_mem_iff]
    have hwanted : ∀ {names name},
        (FileTree.directory entries).at? (names ++ [name]) = some .file →
        (isWanted extensions (below path (names ++ [name])) = true ↔
          HasExtension extensions name) := by
      intro names name hat
      rw [below, List.foldl_append]
      exact isWanted_joinPath_iff
        (h.isEntryName_of_at? hat name (List.mem_append_right _ (List.mem_singleton_self _)))
    constructor
    · rintro ⟨⟨names, rfl, hat⟩, hp⟩
      -- The directory itself is no file, so there is a last name, which decides.
      obtain rfl | ⟨names, name, rfl⟩ := names.eq_nil_or_concat'
      · cases hat
      · exact ⟨names, name, rfl, hat, (hwanted hat).mp hp⟩
    · rintro ⟨names, name, rfl, hat, hextension⟩
      exact ⟨⟨_, rfl, hat⟩, (hwanted hat).mpr hextension⟩

theorem obstacles_collectAt_of_isPlain {tree : FileTree} (h : tree.IsPlain)
    (extensions : List String) (path : String) :
    (collectAt extensions path tree).obstacles = [] := by
  rw [obstacles_collectAt, List.eq_nil_iff_forall_not_mem]
  exact fun o ho => h.obstacle_not_mem path [] o (mem_obstacles.mp ho)

/-- What is found at the path, and the obstacles that are met on the way. -/
structure WalksExactly (extensions : List String) (path : String) (tree : FileTree)
    (found : List String) (met : List Obstacle) : Prop where
  /-- A regular file is found itself, -/
  file : tree = .file → found = [path]
  /-- of a directory the files below it are found, -/
  directory : ∀ entries, tree = .directory entries → FoundBelow extensions path entries found
  /-- and anywhere else nothing is. -/
  other : tree ≠ .file → (∀ entries, tree ≠ .directory entries) → found = []
  /-- An obstacle is met at each place where the walk cannot go on, and nowhere else, -/
  obstacle_mem_iff : ∀ o, o ∈ met ↔ ∃ names place, tree.at? names = some place ∧
    place.ComesTo (below path names) (above path names) (.obstacle o)
  /-- in the order of the paths. -/
  obstacles_sorted : met.Pairwise fun o o' => PathLt o.path o'.path

/-- **Walking is exact**, also where it gets stuck. -/
theorem walksExactly_collectAt {tree : FileTree} (h : tree.IsNamed) (extensions : List String)
    (path : String) :
    WalksExactly extensions path tree (collectAt extensions path tree).paths
      (obstacles (tree.visits path [])) := by
  have hexact := h.visitsExactly path []
  constructor
  case file =>
    rintro rfl
    rfl
  case directory =>
    rintro entries rfl
    exact foundBelow_collectAt h extensions path
  case other =>
    intro hfile hdirectory
    refine List.eq_nil_iff_forall_not_mem.mpr fun p hp => ?_
    have hcomes := (mem_visits_iff_of_other hdirectory).mp (file_mem_visits_of_mem_paths hp)
    cases hcomes
    exact hfile rfl
  case obstacle_mem_iff =>
    intro o
    rw [mem_obstacles, hexact.mem_iff]
    simp only [List.append_nil]
  case obstacles_sorted => exact hexact.pairwise_obstacles

/-! ### All paths of a run -/

/-- What one directory among the paths of a run contributes. -/
structure CollectsExactly (before after : Trees) (path : String)
    (entries : List (String × FileTree)) : Prop where
  /-- The files below the directory are put between those of the paths before and after it. -/
  appended : ∀ extensions, ∃ found, FoundBelow extensions path entries found ∧
    filePaths extensions (before ++ (path, .directory entries) :: after) =
      filePaths extensions before ++ found ++ filePaths extensions after
  /-- Nothing about the directory is reported. -/
  no_failure : ∀ extensions,
    visitFailures extensions (before ++ (path, .directory entries) :: after) =
      visitFailures extensions before ++ visitFailures extensions after
  /-- Of the extensions only the set matters, and not how many dots stand in front of them. -/
  same_of_set : ∀ {extensions extensions' : List String},
    (∀ e, e ∈ extensions.map bareExtension ↔ e ∈ extensions'.map bareExtension) →
    filePaths extensions (before ++ (path, .directory entries) :: after) =
        filePaths extensions' (before ++ (path, .directory entries) :: after) ∧
      visitFailures extensions (before ++ (path, .directory entries) :: after) =
        visitFailures extensions' (before ++ (path, .directory entries) :: after)
  /-- With more extensions no file is lost and none changes its place among the others. -/
  grows : ∀ {extensions extensions' : List String},
    extensions.map bareExtension ⊆ extensions'.map bareExtension →
    (filePaths extensions (before ++ (path, .directory entries) :: after)).Sublist
      (filePaths extensions' (before ++ (path, .directory entries) :: after))
  /-- A regular file in place of the directory is rendered itself, whatever it is called. -/
  file : ∀ extensions path,
    filePaths extensions (before ++ (path, .file) :: after) =
        filePaths extensions before ++ path :: filePaths extensions after ∧
      visitFailures extensions (before ++ (path, .file) :: after) =
        visitFailures extensions before ++ visitFailures extensions after

section Trees

variable {extensions extensions' : List String}

theorem filePaths_append_cons (before after : Trees) (path : String) (tree : FileTree) :
    filePaths extensions (before ++ (path, tree) :: after) = filePaths extensions before ++
      (collectAt extensions path tree).paths ++ filePaths extensions after := by
  rw [filePaths, List.flatMap_append, List.flatMap_cons, List.append_assoc]
  rfl

theorem visitFailures_append_cons (before after : Trees) (path : String) {tree : FileTree}
    (h : (collectAt extensions path tree).obstacles = []) :
    visitFailures extensions (before ++ (path, tree) :: after) =
      visitFailures extensions before ++ visitFailures extensions after := by
  rw [visitFailures, List.flatMap_append, List.flatMap_cons]
  show _ ++ ((collectAt extensions path tree).obstacles.map _ ++ _) = _
  rw [h]
  rfl

theorem filePaths_sublist (h : extensions.map bareExtension ⊆ extensions'.map bareExtension)
    (trees : Trees) : (filePaths extensions trees).Sublist (filePaths extensions' trees) :=
  List.Sublist.flatMap_right trees fun tree _ => paths_collectAt_sublist h tree.1 tree.2

theorem visitFailures_eq (extensions extensions' : List String) (trees : Trees) :
    visitFailures extensions trees = visitFailures extensions' trees :=
  List.flatMap_congr fun (path, tree) _ =>
    congrArg (List.map (Failure.unvisited path)) <|
      (obstacles_collectAt extensions path tree).trans
        (obstacles_collectAt extensions' path tree).symm

end Trees

/-- **Collecting files is exact.**  A directory that consists of regular files and directories
contributes the files below it that have a wanted extension, each once and in the order of their
paths, and nothing else.  A file is contributed whatever it is called. -/
theorem collectsExactly {entries : List (String × FileTree)}
    (h : (FileTree.directory entries).IsPlain) (before after : Trees) (path : String) :
    CollectsExactly before after path entries := by
  constructor
  case appended =>
    exact fun extensions =>
      ⟨_, foundBelow_collectAt h.isNamed extensions path, filePaths_append_cons before after path _⟩
  case no_failure =>
    exact fun extensions =>
      visitFailures_append_cons before after path (obstacles_collectAt_of_isPlain h extensions path)
  case same_of_set =>
    intro extensions extensions' hset
    exact ⟨(filePaths_sublist (fun e => (hset e).mp) _).antisymm
      (filePaths_sublist (fun e => (hset e).mpr) _), visitFailures_eq _ _ _⟩
  case grows => exact fun hsubset => filePaths_sublist hsubset _
  case file =>
    intro extensions path
    rw [filePaths_append_cons, List.append_assoc]
    exact ⟨rfl, visitFailures_append_cons before after path
      (obstacles_collectAt_of_isPlain .file extensions path)⟩

/-- A name may begin with its only point or end with one, and a directory may be named like a file.
The dots before an extension do not count, and an extension may be empty. -/
theorem collectsExactly_points :
    let innermost : List (String × FileTree) := [("d.", .file), (".json", .file)]
    let inner : List (String × FileTree) := [("f", .directory innermost), ("c.tar.gz", .file)]
    let entries : List (String × FileTree) := [("x.json", .directory inner), ("e.json", .file)]
    let trees : Trees := [("dir/", .directory entries), ("g.txt", .file)]
    (FileTree.directory entries).IsPlain ∧ CollectsExactly [] [("g.txt", .file)] "dir/" entries ∧
      filePaths ["..json"] trees = ["dir/e.json", "g.txt"] ∧
      filePaths ["json", ".", "gz", "tar"] trees =
        ["dir/e.json", "dir/x.json/c.tar.gz", "dir/x.json/f/d.", "g.txt"] := by
  intro innermost inner entries trees
  have hpair : ∀ {first second : String × FileTree}, IsEntryName first.1 → IsEntryName second.1 →
      first.1 ≠ second.1 → first.2.IsPlain → second.2.IsPlain →
      (FileTree.directory [first, second]).IsPlain := fun hname hname' hne hfirst hsecond =>
    .directory (by simp [hname, hname']) (by simp [Entries.keys, hne]) (by simp [hfirst, hsecond])
  have hinnermost : (FileTree.directory innermost).IsPlain :=
    hpair (by decide) (by decide) (by decide) .file .file
  have hinner : (FileTree.directory inner).IsPlain :=
    hpair (by decide) (by decide) (by decide) hinnermost .file
  have hentries : (FileTree.directory entries).IsPlain :=
    hpair (by decide) (by decide) (by decide) hinner .file
  -- Sorting does not reduce, so the order of the entries is found first.
  have hsorted : byName entries = [("e.json", .file), ("x.json", .directory inner)] ∧
      byName inner = [("c.tar.gz", .file), ("f", .directory innermost)] ∧
      byName innermost = [(".json", .file), ("d.", .file)] := by
    simp [byName, entries, inner, innermost, List.mergeSort]
  have hvisits : (FileTree.directory entries).visits "dir/" [] =
      [.other "dir/", .file "dir/e.json", .other "dir/x.json", .file "dir/x.json/c.tar.gz",
        .other "dir/x.json/f", .file "dir/x.json/f/.json", .file "dir/x.json/f/d."] := by
    simp only [visits_directory, visits_file, hsorted, List.flatMap_cons, List.flatMap_nil]
    decide +kernel
  have hfound : ∀ extensions, filePaths extensions trees =
      (ofVisits extensions ((FileTree.directory entries).visits "dir/" [])).paths ++ ["g.txt"] :=
    fun _ => rfl
  rw [hfound, hfound, hvisits]
  exact ⟨hentries, collectsExactly hentries [] [("g.txt", .file)] "dir/", by decide +kernel,
    by decide +kernel⟩

end Render

end QueryComposer
