import QueryComposer.Files.Tree
import QueryComposer.OrderedMap

/-!
# File systems with links

A file system held in memory: directories, files and symbolic links under one root, and a current
directory.  A path is resolved name by name, from the root if it begins with a slash and from the
current directory otherwise; a link is replaced by the path that it holds, at most forty times for
one path.  The result is the list of names that leads from the root through directories alone.

`Disk.tree` is what a visit sees at a path, and `Disk.read` are the bytes of a file.
-/

namespace QueryComposer.Files

/-- What a name in a directory can stand for. -/
inductive Node where
  /-- A file and its bytes. -/
  | file (contents : ByteArray)
  /-- A directory and its entries by name. -/
  | directory (entries : List (String × Node))
  /-- A link and the path that it holds. -/
  | link (target : String)
  /-- A device or something else that is none of these. -/
  | special

namespace Node

/-- The node that the names lead to, without following links. -/
def node? : List String → Node → Option Node
  | [], n => some n
  | name :: rest, .directory entries =>
    match Entries.find? name entries with
    | some n => n.node? rest
    | none => none
  | _ :: _, _ => none

/-- The node with `new` where the names lead.  Missing directories are made; below anything else
there is nothing to change. -/
def put (new : Node) : List String → Node → Node
  | [], _ => new
  | name :: rest, .directory entries =>
    let old := (Entries.find? name entries).getD (.directory [])
    .directory (Entries.put name (put new rest old) entries)
  | _ :: _, n => n

mutual

/-- The number of nodes. -/
def size : Node → Nat
  | .directory entries => entriesSize entries + 1
  | _ => 1
termination_by structural n => n

/-- The number of nodes in the entries. -/
def entriesSize : List (String × Node) → Nat
  | [] => 0
  | (_, n) :: rest => n.size + entriesSize rest
termination_by structural entries => entries

end

end Node

/-- A file system and the current directory. -/
structure Disk where
  root : Node
  /-- The names that lead to the directory from which relative paths start. -/
  current : List String

namespace Disk

/-- The file system that has only the current directory and those above it. -/
def ofCurrent (current : List String) : Disk :=
  ⟨Node.put (.directory []) current (.directory []), current⟩

/-! ### Resolution -/

/-- How many links one path may lead through. -/
def linkLimit : Nat := 40

/-- The longest name of an entry, in bytes. -/
def nameLimit : Nat := 255

/-- The longest path, in bytes. -/
def pathLimit : Nat := 4095

/-- Refuse a path that the system does not even begin to resolve. -/
def checkPath (path : String) : Except FileFault Unit :=
  if path.toList.contains '\x00' then .error .containsNul
  else if path = "" then .error .missing
  else if pathLimit < path.utf8ByteSize then .error .nameTooLong
  else .ok ()

/-- Whether the path starts at the root whatever the current directory is. -/
def isAbsolute (path : String) : Bool := path.toList.head? = some '/'

/-- The names that lead to the directory from which the path starts. -/
def origin (disk : Disk) (path : String) : List String :=
  if isAbsolute path then [] else disk.current

/-- The names that lead to the node at the end of the given names, starting from the directory that
the names `here` lead to; `links` more links may be followed.  When `writing`, the very last name,
after all links, may stand for nothing yet. -/
def resolveFrom (disk : Disk) (writing : Bool) (links : Nat) (here : List String) :
    List String → Except FileFault (List String)
  | [] => .ok here
  | name :: rest =>
    match disk.root.node? here with
    | some (.directory entries) =>
      if name = "" ∨ name = "." then resolveFrom disk writing links here rest
      else if name = ".." then resolveFrom disk writing links here.dropLast rest
      else if nameLimit < name.utf8ByteSize then .error .nameTooLong
      else
        match Entries.find? name entries with
        | none => if writing ∧ rest = [] then .ok (here ++ [name]) else .error .missing
        | some (.link target) =>
          match links with
          | 0 => .error .tooManyLinks
          | links + 1 =>
            let start := if isAbsolute target then [] else here
            resolveFrom disk writing links start (components target ++ rest)
        | some _ => resolveFrom disk writing links (here ++ [name]) rest
    | _ => .error .notDirectory
termination_by names => (links, names.length)

/-- The names that lead to the node at the path. -/
def resolve (disk : Disk) (path : String) : Except FileFault (List String) := do
  checkPath path
  disk.resolveFrom false linkLimit (disk.origin path) (components path)

/-! ### Visits and files -/

/-- The file tree at `path`, where the names `here` lead.  `above` holds the names that lead to the
directories on the way, nearest first and `here` among them.  An entry needs no look-up of its own
unless it is a link, so the length of its path is noticed only when a directory is listed. -/
def treeAt (disk : Disk) : (fuel : Nat) → (path : String) → (above : List (List String)) →
    (here : List String) → FileTree
  | 0, _, _, _ => .special
  | fuel + 1, path, above, here =>
    match disk.root.node? here with
    | some (.file _) => .file
    | some (.directory entries) =>
      match checkPath path with
      | .error fault => .locked fault
      | .ok _ =>
        .directory <| entries.map fun (name, node) =>
          let path := joinPath path name
          match node with
          | .file _ => (name, .file)
          | .special => (name, .special)
          | .directory _ =>
            let here := here ++ [name]
            (name, treeAt disk fuel path (here :: above) here)
          | .link _ =>
            match disk.resolve path with
            | .error fault => (name, .unreadable fault)
            | .ok here =>
              match above.findIdx? (· == here) with
              | some levels => (name, .loop levels)
              | none => (name, treeAt disk fuel path (here :: above) here)
    | _ => .special

/-- The file tree at the path.  No directory is entered through a link while it is being visited, so
a way down is shorter than the square of the number of nodes. -/
def tree (disk : Disk) (path : String) : FileTree :=
  match disk.resolve path with
  | .error fault => .unreadable fault
  | .ok here =>
    let size := disk.root.size + 1
    disk.treeAt (size * size) path [here] here

/-- The bytes of the file at the path. -/
def read (disk : Disk) (path : String) : Except FileFault ByteArray := do
  match disk.root.node? (← disk.resolve path) with
  | some (.file contents) => return contents
  | _ => throw .notDirectory

/-! ### Construction

A path at which something is made need not have its directories yet: they are made on the way. -/

/-- The file system with the node where the names lead from the root. -/
def putAt (disk : Disk) (names : List String) (node : Node) : Disk :=
  { disk with root := Node.put node names disk.root }

/-- The file system after making the directories of these names in each other, as far as they are
missing, and the names that lead to the last.  The first lies in the directory that the names `here`
lead to. -/
def makeDirectoriesFrom (disk : Disk) (here : List String) : List String → Disk × List String
  | [] => (disk, here)
  | name :: rest =>
    match disk.resolveFrom false linkLimit here [name] with
    | .ok here => disk.makeDirectoriesFrom here rest
    | .error _ =>
      let here := here ++ [name]
      (disk.putAt here (.directory [])).makeDirectoriesFrom here rest

/-- The file system with a directory at the path. -/
def makeDirectory (disk : Disk) (path : String) : Disk :=
  (disk.makeDirectoriesFrom (disk.origin path) (components path)).1

/-- The file system with the directory that is to hold the last name of the path, the names that
lead to that directory, and the last name. -/
def makeParent (disk : Disk) (path : String) : Disk × List String × String :=
  let names := components path
  let (disk, here) := disk.makeDirectoriesFrom (disk.origin path) names.dropLast
  (disk, here, names.getLastD "")

/-- The file system with a link at the path. -/
def makeLink (disk : Disk) (path target : String) : Disk :=
  let (disk, here, name) := disk.makeParent path
  disk.putAt (here ++ [name]) (.link target)

/-- The file system after writing a file at the path.  Links are followed even if they lead to
nothing yet, and then the file arises there; what is no file is not overwritten. -/
def writeFile (disk : Disk) (path : String) (contents : ByteArray) : Disk :=
  let (disk, here, name) := disk.makeParent path
  match disk.resolveFrom true linkLimit here [name] with
  | .error _ => disk
  | .ok place =>
    match disk.root.node? place with
    | none | some (.file _) => disk.putAt place (.file contents)
    | _ => disk

end Disk

end QueryComposer.Files
