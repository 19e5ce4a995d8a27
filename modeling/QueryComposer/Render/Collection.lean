import QueryComposer.Files.Tree
import QueryComposer.Notice

/-!
# Collecting request files

The files to render are named by paths.  A path to a file names that file, whatever it is called; a
path to a directory names the files at any depth below it that have one of the wanted extensions.
-/

namespace QueryComposer.Render

open Files

/-- The extension as it is compared: without dots in front. -/
def bareExtension (extension : String) : String :=
  String.ofList (extension.toList.dropWhile (· = '.'))

/-- Whether the file at the path has one of the extensions. -/
def isWanted (extensions : List String) (path : String) : Bool :=
  match extension? path with
  | none => false
  | some extension => (extensions.map bareExtension).contains extension

/-- What has been found under some path that was asked for. -/
structure Collected where
  /-- The files to render, in order. -/
  paths : List String
  /-- The places that could not be visited, in order. -/
  obstacles : List Obstacle

/-- The wanted files and the obstacles of a visit. -/
def ofVisits (extensions : List String) (visits : List Visit) : Collected where
  paths := visits.filterMap fun
    | .file path => if isWanted extensions path then some path else none
    | _ => none
  obstacles := visits.filterMap fun
    | .obstacle o => some o
    | _ => none

/-- What is found at a path that was asked for. -/
def collectAt (extensions : List String) (path : String) : FileTree → Collected
  | .file => ⟨[path], []⟩
  | tree => ofVisits extensions (tree.visits path [])

/-- The notices of a visit below the path `argument`. -/
def visitNotice (argument : String) : Visit → Notice
  | .file path => .foundFile path
  | .other path => .skipped path
  | .obstacle _ => .unvisited argument

/-- The notices of collecting at a path that was asked for. -/
def collectNotices (path : String) : FileTree → List Notice
  | .file => []
  | tree => (tree.visits path []).map (visitNotice path)

end QueryComposer.Render
