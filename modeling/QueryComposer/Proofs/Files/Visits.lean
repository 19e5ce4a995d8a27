import Mathlib.Data.List.Basic
import QueryComposer.Files.Tree
import QueryComposer.Proofs.Files.ByteOrder
import QueryComposer.Proofs.OrderedMap

/-!
# Visits of file trees

In a tree of a file system the names in a directory can be told apart.  What lies below a directory
is named by the row of names that leads there, and the path is the one of the directory with these
names behind it (`components_below`).

A visit comes to whatever lies in the tree, and it meets an obstacle wherever it cannot go on.  Each
visit belongs to one place (`FileTree.ComesTo`), and nothing is left out.

Main statement: a visit comes to every place of the tree and to nothing else, and the places where
it ends come in the order of their paths (`FileTree.IsNamed.visitsExactly`).
-/

namespace QueryComposer

/-! ### Splitting -/

namespace Text

theorem splitChars_append_separator (separator : Char) (xs ys : List Char) :
    splitChars separator (xs ++ separator :: ys) =
      splitChars separator xs ++ splitChars separator ys := by
  induction xs with
  | nil =>
    show splitChars separator (separator :: ys) = [] :: splitChars separator ys
    rw [splitChars, if_pos rfl]
  | cons c xs ih =>
    rw [List.cons_append]
    by_cases h : c = separator
    · rw [splitChars, if_pos h, ih, splitChars, if_pos h, List.cons_append]
    · rw [splitChars, if_neg h, ih, splitChars, if_neg h]
      have hne : splitChars separator xs ≠ [] :=
        List.ne_nil_of_length_pos (by rw [length_splitChars]; omega)
      obtain ⟨part, parts, hparts⟩ := List.exists_cons_of_ne_nil hne
      rw [hparts]
      rfl

theorem splitChars_of_not_mem {separator : Char} {xs : List Char} (h : separator ∉ xs) :
    splitChars separator xs = [xs] := by
  induction xs with
  | nil => rfl
  | cons c xs ih =>
    obtain ⟨hc, hrest⟩ := List.ne_and_not_mem_of_not_mem_cons h
    rw [splitChars, if_neg (Ne.symm hc), ih hrest]

end Text

namespace Files

/-! ### Paths below a directory -/

/-- A name that an entry of a directory can have. -/
structure IsEntryName (name : String) : Prop where
  ne_empty : name ≠ ""
  no_slash : '/' ∉ name.toList

instance : DecidablePred IsEntryName := fun name =>
  decidable_of_iff (name ≠ "" ∧ '/' ∉ name.toList)
    ⟨fun h => ⟨h.1, h.2⟩, fun h => ⟨h.ne_empty, h.no_slash⟩⟩

/-- The path that the names lead to from a directory. -/
def below (path : String) (names : List String) : String := names.foldl joinPath path

/-- The parts that a path has in common with the paths below it: a slash at its end begins no part
of its own. -/
def leadingParts (path : String) : List String :=
  if path.toList.getLast? = some '/' then (components path).dropLast else components path

theorem components_append_slash (path : String) {name : String} (h : IsEntryName name) :
    components (path ++ "/" ++ name) = components path ++ [name] := by
  have hsplit : (path ++ "/" ++ name).toList = path.toList ++ '/' :: name.toList := by
    rw [String.toList_append, String.toList_append, List.append_assoc]
    rfl
  rw [components, Text.split, hsplit, Text.splitChars_append_separator,
    Text.splitChars_of_not_mem h.no_slash, List.map_append, List.map_singleton,
    String.ofList_toList]
  rfl

theorem components_joinPath (path : String) {name : String} (h : IsEntryName name) :
    components (joinPath path name) = leadingParts path ++ [name] := by
  rw [joinPath, leadingParts]
  by_cases hlast : path.toList.getLast? = some '/'
  · rw [if_pos hlast, if_pos hlast]
    obtain ⟨init, hinit⟩ := List.getLast?_eq_some_iff.mp hlast
    have hpath : path = String.ofList init ++ "/" := by
      apply String.toList_injective
      have htext : (String.ofList init).toList = init := String.toList_ofList
      rw [hinit, String.toList_append, htext]
      rfl
    have hcomponents : components path = components (String.ofList init) ++ [""] := by
      have htext : (String.ofList init).toList = init := String.toList_ofList
      rw [components, Text.split, hinit, Text.splitChars_append_separator, List.map_append,
        components, Text.split, htext]
      rfl
    rw [hcomponents, List.dropLast_concat, hpath, components_append_slash _ h]
  · rw [if_neg hlast, if_neg hlast, components_append_slash _ h]

theorem leadingParts_joinPath (path : String) {name : String} (h : IsEntryName name) :
    leadingParts (joinPath path name) = leadingParts path ++ [name] := by
  have hne : name.toList ≠ [] := fun hnil => h.ne_empty (String.toList_eq_nil_iff.mp hnil)
  have hlast : (joinPath path name).toList.getLast? ≠ some '/' := by
    have hend : ∃ start, (joinPath path name).toList = start ++ name.toList := by
      rw [joinPath]
      split
      · exact ⟨_, String.toList_append⟩
      · exact ⟨_, String.toList_append⟩
    obtain ⟨start, hstart⟩ := hend
    rw [hstart, List.getLast?_append_of_ne_nil _ hne]
    exact fun hslash => h.no_slash (List.mem_of_getLast? hslash)
  rw [leadingParts, if_neg hlast, components_joinPath path h]

/-- The parts of a path below a directory are those of the directory and the names. -/
theorem components_below {names : List String} (hnames : ∀ name ∈ names, IsEntryName name)
    (hne : names ≠ []) : ∀ path, components (below path names) = leadingParts path ++ names := by
  induction names with
  | nil => exact absurd rfl hne
  | cons name names ih =>
    intro path
    obtain ⟨hname, hrest⟩ := List.forall_mem_cons.mp hnames
    show components (below (joinPath path name) names) = _
    cases names with
    | nil => exact components_joinPath path hname
    | cons second names =>
      rw [ih hrest (List.cons_ne_nil _ _), leadingParts_joinPath path hname, List.append_assoc]
      rfl

/-- Paths are compared part by part, and the parts by their bytes. -/
def PathLt (p q : String) : Prop := (components p).map Text.bytes < (components q).map Text.bytes

/-- Below a smaller name all paths are smaller. -/
theorem pathLt_below {path name name' : String} {names names' : List String}
    (hnames : ∀ n ∈ name :: names, IsEntryName n) (hnames' : ∀ n ∈ name' :: names', IsEntryName n)
    (h : name < name') : PathLt (below path (name :: names)) (below path (name' :: names')) := by
  rw [PathLt, components_below hnames (List.cons_ne_nil _ _),
    components_below hnames' (List.cons_ne_nil _ _), List.map_append, List.map_append]
  exact List.append_left_lt (List.cons_lt_cons_iff.mpr (.inl (Text.bytes_lt_iff.mpr h)))

/-! ### Trees -/

namespace FileTree

/-- What lies where the names lead. -/
def at? : FileTree → List String → Option FileTree
  | tree, [] => some tree
  | .directory entries, name :: names =>
    (Entries.find? name entries).bind fun tree => tree.at? names
  | _, _ :: _ => none

/-- In every directory the entries have different names. -/
inductive IsNamed : FileTree → Prop where
  | directory {entries : List (String × FileTree)} (names : ∀ entry ∈ entries, IsEntryName entry.1)
      (distinct : (Entries.keys entries).Nodup) (trees : ∀ entry ∈ entries, IsNamed entry.2) :
      IsNamed (.directory entries)
  | other {tree : FileTree} (h : ∀ entries, tree ≠ .directory entries) : IsNamed tree

/-- The tree consists of regular files and directories whose entries have different names. -/
inductive IsPlain : FileTree → Prop where
  | file : IsPlain .file
  | directory {entries : List (String × FileTree)} (names : ∀ entry ∈ entries, IsEntryName entry.1)
      (distinct : (Entries.keys entries).Nodup) (trees : ∀ entry ∈ entries, IsPlain entry.2) :
      IsPlain (.directory entries)

theorem IsPlain.isNamed {tree : FileTree} (h : tree.IsPlain) : tree.IsNamed := by
  induction h with
  | file => exact .other fun _ hfile => by cases hfile
  | directory hnames hdistinct _ ih => exact .directory hnames hdistinct ih

theorem at?_nil (tree : FileTree) : tree.at? [] = some tree := by
  cases tree <;> rfl

/-- Names lead on only from a directory. -/
theorem at?_eq_some_iff_of_other {tree found : FileTree} (h : ∀ entries, tree ≠ .directory entries)
    {names : List String} : tree.at? names = some found ↔ names = [] ∧ tree = found := by
  cases names with
  | nil =>
    rw [at?_nil, Option.some.injEq]
    exact (and_iff_right rfl).symm
  | cons name names =>
    refine iff_of_false ?_ fun hnil => List.cons_ne_nil _ _ hnil.1
    cases tree with
    | directory entries => exact absurd rfl (h entries)
    | file | special | locked | unreadable | loop => exact fun hat => by cases hat

theorem at?_directory_cons_iff {entries : List (String × FileTree)}
    (h : (Entries.keys entries).Nodup) {name : String} {names : List String} {tree : FileTree} :
    (FileTree.directory entries).at? (name :: names) = some tree ↔
      ∃ entry ∈ entries, entry.1 = name ∧ entry.2.at? names = some tree := by
  rw [at?, Option.bind_eq_some_iff]
  constructor
  · rintro ⟨found, hfound, hat⟩
    exact ⟨_, Entries.mem_of_find? hfound, rfl, hat⟩
  · rintro ⟨entry, hentry, rfl, hat⟩
    exact ⟨entry.2, Entries.find?_of_mem h hentry, hat⟩

/-- Every name on the way is the name of an entry. -/
theorem IsNamed.isEntryName_of_at? {tree : FileTree} (h : tree.IsNamed) :
    ∀ {names found}, tree.at? names = some found → ∀ name ∈ names, IsEntryName name := by
  induction h with
  | other hother =>
    intro names found hat
    rw [((at?_eq_some_iff_of_other hother).mp hat).1]
    exact fun _ hname => absurd hname List.not_mem_nil
  | directory hnames hdistinct _ ih =>
    rintro (_ | ⟨name, names⟩) found hat
    · exact fun _ hname => absurd hname List.not_mem_nil
    · obtain ⟨entry, hentry, rfl, hbelow⟩ := (at?_directory_cons_iff hdistinct).mp hat
      exact List.forall_mem_cons.mpr ⟨hnames entry hentry, ih entry hentry hbelow⟩

/-- All that lies below a plain tree is plain. -/
theorem IsPlain.of_at? {tree : FileTree} (h : tree.IsPlain) :
    ∀ {names found}, tree.at? names = some found → found.IsPlain := by
  induction h with
  | file =>
    rintro (_ | ⟨name, names⟩) found hat
    · cases hat
      exact .file
    · cases hat
  | directory hnames hdistinct htrees ih =>
    rintro (_ | ⟨name, names⟩) found hat
    · cases hat
      exact .directory hnames hdistinct htrees
    · obtain ⟨entry, hentry, rfl, hbelow⟩ := (at?_directory_cons_iff hdistinct).mp hat
      exact ih entry hentry hbelow

end FileTree

/-! ### Visits -/

/-- The entries in the order of their names. -/
def byName (entries : List (String × FileTree)) : List (String × FileTree) :=
  entries.mergeSort fun a b => decide (a.1 ≤ b.1)

theorem mem_byName {entries : List (String × FileTree)} {entry : String × FileTree} :
    entry ∈ byName entries ↔ entry ∈ entries := List.mem_mergeSort

/-- Different names stand in strictly increasing order. -/
theorem pairwise_byName {entries : List (String × FileTree)} (h : (Entries.keys entries).Nodup) :
    (byName entries).Pairwise fun a b => a.1 < b.1 := by
  have htrans : ∀ a b c : String × FileTree, decide (a.1 ≤ b.1) = true →
      decide (b.1 ≤ c.1) = true → decide (a.1 ≤ c.1) = true := fun a b c hab hbc =>
    decide_eq_true (String.le_trans (of_decide_eq_true hab) (of_decide_eq_true hbc))
  have htotal : ∀ a b : String × FileTree,
      (decide (a.1 ≤ b.1) || decide (b.1 ≤ a.1)) = true := by
    intro a b
    rw [Bool.or_eq_true, decide_eq_true_iff, decide_eq_true_iff]
    exact String.le_total a.1 b.1
  have hsorted : (byName entries).Pairwise fun a b => decide (a.1 ≤ b.1) = true :=
    List.pairwise_mergeSort htrans htotal entries
  have hdistinct : (byName entries).Pairwise fun a b => a.1 ≠ b.1 := by
    have hkeys : (Entries.keys (byName entries)).Nodup :=
      ((List.mergeSort_perm entries _).map Prod.fst).nodup_iff.mpr h
    exact List.pairwise_map.mp hkeys
  exact hsorted.imp₂ (fun a b hle hne => lt_of_le_of_ne (of_decide_eq_true hle) hne) hdistinct

theorem entryVisits_eq_map (path : String) (ancestors : List String)
    (entries : List (String × FileTree)) :
    entryVisits path ancestors entries = entries.map fun entry =>
      (entry.1, entry.2.visits (joinPath path entry.1) ancestors) := by
  induction entries with
  | nil => rfl
  | cons entry entries ih => rw [entryVisits, ih, List.map_cons]

theorem visits_file (path : String) (ancestors : List String) :
    FileTree.file.visits path ancestors = [.file path] := rfl

/-- A directory is visited before its entries, and these by name. -/
theorem visits_directory (path : String) (ancestors : List String)
    (entries : List (String × FileTree)) :
    (FileTree.directory entries).visits path ancestors =
      .other path :: (byName entries).flatMap fun entry =>
        entry.2.visits (joinPath path entry.1) (path :: ancestors) := by
  have hsort := List.map_mergeSort (l := entries) (r := fun a b => decide (a.1 ≤ b.1))
    (s := fun a b => decide (a.1 ≤ b.1))
    (f := fun entry => (entry.1, entry.2.visits (joinPath path entry.1) (path :: ancestors)))
    (fun _ _ _ _ => rfl)
  rw [FileTree.visits, entryVisits_eq_map, inNameOrder, ← hsort, List.flatMap_map]
  rfl

/-- What a visit comes to at the place where the tree itself stands. -/
inductive FileTree.ComesTo (path : String) (ancestors : List String) : FileTree → Visit → Prop where
  | file : ComesTo path ancestors .file (.file path)
  | directory {entries : List (String × FileTree)} :
      ComesTo path ancestors (.directory entries) (.other path)
  | special : ComesTo path ancestors .special (.other path)
  | lockedDirectory {fault : FileFault} : ComesTo path ancestors (.locked fault) (.other path)
  | locked {fault : FileFault} :
      ComesTo path ancestors (.locked fault) (.obstacle (.fault path fault))
  | unreadable {fault : FileFault} :
      ComesTo path ancestors (.unreadable fault) (.obstacle (.fault path fault))
  | loop {levels : Nat} :
      ComesTo path ancestors (.loop levels) (.obstacle (.loop path (ancestors.getD levels "")))

/-- Nothing else is visited of a tree that is no directory. -/
theorem mem_visits_iff_of_other {tree : FileTree} (h : ∀ entries, tree ≠ .directory entries)
    {path : String} {ancestors : List String} {visit : Visit} :
    visit ∈ tree.visits path ancestors ↔ tree.ComesTo path ancestors visit := by
  constructor
  · intro hvisit
    cases tree with
    | directory entries => exact absurd rfl (h entries)
    | file =>
      rw [List.mem_singleton.mp hvisit]
      exact .file
    | special =>
      rw [List.mem_singleton.mp hvisit]
      exact .special
    | locked fault =>
      obtain rfl | hvisit := List.mem_cons.mp hvisit
      · exact .lockedDirectory
      · rw [List.mem_singleton.mp hvisit]
        exact .locked
    | unreadable fault =>
      rw [List.mem_singleton.mp hvisit]
      exact .unreadable
    | loop levels =>
      rw [List.mem_singleton.mp hvisit]
      exact .loop
  · intro hcomes
    cases hcomes with
    | directory => exact absurd rfl (h _)
    | locked => exact List.mem_cons_of_mem _ (List.mem_singleton_self _)
    | lockedDirectory => exact List.mem_cons_self
    | file | special | unreadable | loop => exact List.mem_singleton_self _

theorem mem_visits_directory_iff {path : String} {ancestors : List String}
    {entries : List (String × FileTree)} {visit : Visit} :
    visit ∈ (FileTree.directory entries).visits path ancestors ↔ visit = .other path ∨
      ∃ entry ∈ entries, visit ∈ entry.2.visits (joinPath path entry.1) (path :: ancestors) := by
  rw [visits_directory, List.mem_cons, List.mem_flatMap]
  simp only [mem_byName]

/-! ### The places of a tree -/

/-- The paths of the directories that the names lead through, nearest first. -/
def above : String → List String → List String
  | _, [] => []
  | path, name :: names => above (joinPath path name) names ++ [path]

/-- The path where the obstacle is. -/
def Obstacle.path : Obstacle → String
  | fault path _ | loop path _ => path

/-- The path at which a visit ends, with a regular file or an obstacle. -/
def Visit.end? : Visit → Option String
  | .file path => some path
  | .other _ => none
  | .obstacle o => some o.path

theorem FileTree.ComesTo.end?_eq {path : String} {ancestors : List String} {tree : FileTree}
    {visit : Visit} (h : tree.ComesTo path ancestors visit) {p : String}
    (hp : visit.end? = some p) : p = path := by
  cases h with
  | directory | special | lockedDirectory => cases hp
  | file | locked | unreadable | loop => exact (Option.some.inj hp).symm

/-- If both visits end somewhere, the first ends at the smaller path. -/
def Visit.EndsBefore (first second : Visit) : Prop :=
  ∀ p, first.end? = some p → ∀ q, second.end? = some q → PathLt p q

/-- A visit of the tree at the path comes to all places of the tree in their order. -/
structure VisitsExactly (path : String) (ancestors : List String) (tree : FileTree)
    (visits : List Visit) : Prop where
  /-- Every place is come to, and no other is. -/
  mem_iff : ∀ visit, visit ∈ visits ↔ ∃ names found, tree.at? names = some found ∧
    found.ComesTo (below path names) (above path names ++ ancestors) visit
  /-- The regular files and the obstacles come in the order of their paths, so none comes twice. -/
  sorted : visits.Pairwise Visit.EndsBefore

/-- A directory is come to itself, and then the places of its entries are. -/
theorem exists_comesTo_directory_iff {entries : List (String × FileTree)}
    (h : (Entries.keys entries).Nodup) {path : String} {ancestors : List String} {visit : Visit} :
    (∃ names found, (FileTree.directory entries).at? names = some found ∧
        found.ComesTo (below path names) (above path names ++ ancestors) visit) ↔
      visit = .other path ∨ ∃ entry ∈ entries, ∃ names found, entry.2.at? names = some found ∧
        found.ComesTo (below (joinPath path entry.1) names)
          (above (joinPath path entry.1) names ++ path :: ancestors) visit := by
  have habove : ∀ name names, above path (name :: names) ++ ancestors =
      above (joinPath path name) names ++ path :: ancestors := by
    intro name names
    rw [above, List.append_assoc]
    rfl
  constructor
  · rintro ⟨_ | ⟨name, names⟩, found, hat, hcomes⟩
    · cases hat
      cases hcomes
      exact .inl rfl
    · obtain ⟨entry, hentry, rfl, hbelow⟩ := (FileTree.at?_directory_cons_iff h).mp hat
      exact .inr ⟨entry, hentry, names, found, hbelow, habove _ _ ▸ hcomes⟩
  · rintro (rfl | ⟨entry, hentry, names, found, hat, hcomes⟩)
    · exact ⟨[], .directory entries, rfl, .directory⟩
    · exact ⟨entry.1 :: names, found,
        (FileTree.at?_directory_cons_iff h).mpr ⟨entry, hentry, rfl, hat⟩,
        (habove entry.1 names).symm ▸ hcomes⟩

/-- **A visit is exact.** -/
theorem FileTree.IsNamed.visitsExactly {tree : FileTree} (h : tree.IsNamed) :
    ∀ path ancestors, VisitsExactly path ancestors tree (tree.visits path ancestors) := by
  induction h with
  | @other tree hother =>
    intro path ancestors
    constructor
    case mem_iff =>
      intro visit
      rw [mem_visits_iff_of_other hother]
      constructor
      · exact fun hcomes => ⟨[], tree, at?_nil tree, hcomes⟩
      · rintro ⟨names, found, hat, hcomes⟩
        obtain ⟨rfl, rfl⟩ := (at?_eq_some_iff_of_other hother).mp hat
        exact hcomes
    case sorted =>
      cases tree with
      | directory entries => exact absurd rfl (hother entries)
      | locked fault =>
        refine List.pairwise_pair.mpr fun p hp => ?_
        cases hp
      | file | special | unreadable | loop => exact List.pairwise_singleton _ _
  | @directory entries hnames hdistinct htrees ih =>
    intro path ancestors
    constructor
    case mem_iff =>
      intro visit
      rw [mem_visits_directory_iff, exists_comesTo_directory_iff hdistinct]
      refine or_congr_right (exists_congr fun entry => and_congr_right fun hentry => ?_)
      exact (ih entry hentry _ _).mem_iff visit
    case sorted =>
      rw [visits_directory, List.pairwise_cons, List.pairwise_flatMap]
      refine ⟨?_, ?_, ?_⟩
      · intro visit _ p hp
        cases hp
      · exact fun entry hentry => (ih entry (mem_byName.mp hentry) _ _).sorted
      -- Between the entries the names decide, since all paths begin with the same parts.
      refine (pairwise_byName hdistinct).imp_of_mem fun {a b} ha hb hlt v hv w hw p hp q hq => ?_
      rw [mem_byName] at ha hb
      obtain ⟨names, found, hat, hcomes⟩ := ((ih a ha _ _).mem_iff v).mp hv
      obtain ⟨names', found', hat', hcomes'⟩ := ((ih b hb _ _).mem_iff w).mp hw
      rw [hcomes.end?_eq hp, hcomes'.end?_eq hq]
      exact pathLt_below
        (List.forall_mem_cons.mpr ⟨hnames a ha, (htrees a ha).isEntryName_of_at? hat⟩)
        (List.forall_mem_cons.mpr ⟨hnames b hb, (htrees b hb).isEntryName_of_at? hat'⟩) hlt

/-! ### Files and obstacles -/

/-- The path of a regular file that is visited. -/
def Visit.file? : Visit → Option String
  | .file path => some path
  | _ => none

/-- The obstacle that a visit meets. -/
def Visit.obstacle? : Visit → Option Obstacle
  | .obstacle o => some o
  | _ => none

theorem Visit.file?_eq_some_iff {visit : Visit} {path : String} :
    visit.file? = some path ↔ visit = .file path := by
  cases visit <;> simp [Visit.file?]

theorem Visit.obstacle?_eq_some_iff {visit : Visit} {o : Obstacle} :
    visit.obstacle? = some o ↔ visit = .obstacle o := by
  cases visit <;> simp [Visit.obstacle?]

/-- The regular files that are visited, in order. -/
def regularFiles (visits : List Visit) : List String := visits.filterMap Visit.file?

/-- The obstacles that are met, in order. -/
def obstacles (visits : List Visit) : List Obstacle := visits.filterMap Visit.obstacle?

theorem mem_regularFiles {visits : List Visit} {path : String} :
    path ∈ regularFiles visits ↔ .file path ∈ visits := by
  simp only [regularFiles, List.mem_filterMap, Visit.file?_eq_some_iff, exists_eq_right]

theorem mem_obstacles {visits : List Visit} {o : Obstacle} :
    o ∈ obstacles visits ↔ .obstacle o ∈ visits := by
  simp only [obstacles, List.mem_filterMap, Visit.obstacle?_eq_some_iff, exists_eq_right]

namespace VisitsExactly

variable {path : String} {ancestors : List String} {tree : FileTree} {visits : List Visit}

/-- Every regular file is visited, and nothing else is visited as one. -/
theorem file_mem_iff (h : VisitsExactly path ancestors tree visits) {p : String} :
    .file p ∈ visits ↔ ∃ names, p = below path names ∧ tree.at? names = some .file := by
  rw [h.mem_iff]
  constructor
  · rintro ⟨names, found, hat, hcomes⟩
    cases hcomes
    exact ⟨names, rfl, hat⟩
  · rintro ⟨names, rfl, hat⟩
    exact ⟨names, .file, hat, .file⟩

/-- What is taken from visits that end somewhere comes in the order of the paths there. -/
theorem pairwise_filterMap (h : VisitsExactly path ancestors tree visits) {α : Type}
    {taken? : Visit → Option α} {pathOf : α → String}
    (htaken : ∀ visit a, taken? visit = some a → visit.end? = some (pathOf a)) :
    (visits.filterMap taken?).Pairwise fun a b => PathLt (pathOf a) (pathOf b) := by
  refine List.pairwise_filterMap.mpr (h.sorted.imp fun hends a ha b hb => ?_)
  exact hends _ (htaken _ a ha) _ (htaken _ b hb)

theorem pairwise_regularFiles (h : VisitsExactly path ancestors tree visits) :
    (regularFiles visits).Pairwise PathLt := by
  refine h.pairwise_filterMap fun visit p hp => ?_
  rw [Visit.file?_eq_some_iff.mp hp]
  rfl

theorem pairwise_obstacles (h : VisitsExactly path ancestors tree visits) :
    (obstacles visits).Pairwise fun o o' => PathLt o.path o'.path := by
  refine h.pairwise_filterMap fun visit o ho => ?_
  rw [Visit.obstacle?_eq_some_iff.mp ho]
  rfl

end VisitsExactly

/-- In a plain tree there is no obstacle. -/
theorem FileTree.IsPlain.obstacle_not_mem {tree : FileTree} (h : tree.IsPlain) (path : String)
    (ancestors : List String) (o : Obstacle) : .obstacle o ∉ tree.visits path ancestors := by
  intro ho
  obtain ⟨names, found, hat, hcomes⟩ := ((h.isNamed.visitsExactly path ancestors).mem_iff _).mp ho
  have hplain := h.of_at? hat
  cases hcomes <;> cases hplain

end Files

end QueryComposer
