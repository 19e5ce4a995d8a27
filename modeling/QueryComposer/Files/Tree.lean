import QueryComposer.Files.Path

/-!
# File trees

What lies at a path, as far as a visit can see it: files, directories with their entries, and places
where the visit cannot go on.  Links are followed, so they do not show; a link that leads back to a
directory above itself is cut off where it stands.

A visit is depth first.  A directory comes before its entries, and the entries come in the order of
the bytes of their names, which is the order of their code points.
-/

namespace QueryComposer.Files

/-- Why the system refuses access to a path. -/
inductive FileFault where
  | missing
  | notDirectory
  | nameTooLong
  | tooManyLinks
  /-- The path holds the character that ends paths in the system. -/
  | containsNul
  /-- Any other reason, in the words of the system. -/
  | other (description : String)
deriving DecidableEq

/-- The words of the system for the reason. -/
def FileFault.describe : FileFault → String
  | missing => "No such file or directory (os error 2)"
  | notDirectory => "Not a directory (os error 20)"
  | nameTooLong => "File name too long (os error 36)"
  | tooManyLinks => "Too many levels of symbolic links (os error 40)"
  | containsNul => "file name contained an unexpected NUL byte"
  | other description => description

/-- What lies at a path. -/
inductive FileTree where
  /-- A regular file. -/
  | file
  /-- A directory and its entries by name. -/
  | directory (entries : List (String × FileTree))
  /-- Neither a regular file nor a directory. -/
  | special
  /-- A directory whose entries cannot be listed. -/
  | locked (fault : FileFault)
  /-- Nothing that can be accessed. -/
  | unreadable (fault : FileFault)
  /-- A link to a directory above it: `0` stands for the directory that holds the link. -/
  | loop (levels : Nat)

/-- Why a visit cannot go on at some path. -/
inductive Obstacle where
  | fault (path : String) (fault : FileFault)
  | loop (path ancestor : String)
deriving DecidableEq

/-- The wording of the obstacle. -/
def Obstacle.describe : Obstacle → String
  | fault path f => "IO error for operation on " ++ path ++ ": " ++ f.describe
  | loop path ancestor =>
    "File system loop found: " ++ path ++ " points to an ancestor " ++ ancestor

/-- One step of a visit. -/
inductive Visit where
  /-- A regular file. -/
  | file (path : String)
  /-- A directory, or something else that is no regular file. -/
  | other (path : String)
  /-- A place where the visit cannot go on. -/
  | obstacle (obstacle : Obstacle)
deriving DecidableEq

/-- The visits of named entries in the order of the names. -/
def inNameOrder (entries : List (String × List Visit)) : List Visit :=
  (entries.mergeSort fun a b => decide (a.1 ≤ b.1)).flatMap Prod.snd

mutual

/-- The visit of the tree at `path`.  `ancestors` are the paths of the directories above, nearest
first. -/
def FileTree.visits (path : String) (ancestors : List String) : FileTree → List Visit
  | .file => [.file path]
  | .directory entries =>
    .other path :: inNameOrder (entryVisits path (path :: ancestors) entries)
  | .special => [.other path]
  | .locked fault => [.other path, .obstacle (.fault path fault)]
  | .unreadable fault => [.obstacle (.fault path fault)]
  | .loop levels => [.obstacle (.loop path (ancestors.getD levels ""))]
termination_by structural t => t

/-- The visits of the entries of the directory at `path`, by name. -/
def entryVisits (path : String) (ancestors : List String) :
    List (String × FileTree) → List (String × List Visit)
  | [] => []
  | (name, tree) :: rest =>
    (name, tree.visits (joinPath path name) ancestors) :: entryVisits path ancestors rest
termination_by structural entries => entries

end

end QueryComposer.Files
