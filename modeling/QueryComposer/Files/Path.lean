import QueryComposer.Text.Split

/-!
# File paths

Paths are texts with slashes between the names of directories, as they are given on the command line
and shown in messages.
-/

namespace QueryComposer.Files

/-- The path of the entry of this name in a directory. -/
def joinPath (directory name : String) : String :=
  if directory.toList.getLast? = some '/' then directory ++ name else directory ++ "/" ++ name

/-- The parts of a path between its slashes. -/
def components (path : String) : List String := Text.split '/' path

/-- The extension in a file name: what follows its last point, unless that point is its first
character. -/
def extensionOf? (name : List Char) : Option (List Char) :=
  let reversed := name.reverse
  match reversed.dropWhile (· ≠ '.') with
  | [] | [_] => none
  | _ => some (reversed.takeWhile (· ≠ '.')).reverse

/-- The extension of the file at the path. -/
def extension? (path : String) : Option String :=
  (Text.splitChars '/' path.toList).getLast?.bind extensionOf? |>.map String.ofList

end QueryComposer.Files
