import QueryComposer.Description.Build
import QueryComposer.Description.OfJson
import QueryComposer.Render.Collection
import QueryComposer.Request

/-!
# Rendering request files

Each file is read, parsed, built and written on its own: as text, or as the payload of a request.  A
file with a single definition is that definition; any other number of definitions makes a document.

A run goes through all files it collects and keeps what succeeded beside what failed.  It counts as
a success when nothing failed and something was rendered.

Why a text is no request file is told in the words of the library that reads it.  These words are a
parameter of a run.
-/

namespace QueryComposer.Render

open Files

/-- What is written for a request file. -/
inductive OutputFormat where
  | text
  | json
deriving DecidableEq

/-- What a run was asked to do. -/
structure Options where
  format : OutputFormat
  /-- The wanted extensions, with or without dots in front. -/
  extensions : List String
  /-- The files and directories to render. -/
  paths : List String

/-! ### One file -/

/-- The text of the definitions of a file. -/
def definitionsText : List Definition → String
  | [definition] => definition.toGraphQL
  | definitions => (Document.mk definitions).toGraphQL

/-- The request for the definitions of a file. -/
def definitionsRequest : List Definition → Request
  | [definition] => Request.ofDefinition definition
  | definitions => Request.ofQuery (Document.mk definitions).toGraphQL

/-- What is written for the definitions of a file and the values of its variables. -/
def write (format : OutputFormat) (variableValues : Option (OrderedMap Json))
    (definitions : List Definition) : String :=
  match format with
  | .text => definitionsText definitions
  | .json => { definitionsRequest definitions with variableValues }.text

/-- What is written for a request file. -/
def renderFile (format : OutputFormat) (file : RequestFile) : Recorded String := do
  return write format file.variableValues (← file.build)

/-! ### Failures -/

/-- How it is told why a text is no request file. -/
abbrev Explain := String → String

/-- A mark in place of the words. -/
def Explain.masked : Explain := fun _ => "<parse error>"

/-- Why a file is not rendered. -/
inductive FileError where
  | unreadable (fault : FileFault)
  | notText
  /-- The reason is given in the words of the library. -/
  | notRequestFile (reason : String)
  | notBuilt (error : BuildError)
deriving DecidableEq

def FileError.message : FileError → String
  | unreadable fault => fault.describe
  | notText => "stream did not contain valid UTF-8"
  | notRequestFile reason => reason
  | notBuilt error => error.fullMessage

/-- What went wrong in a run, under the path that it happened at. -/
inductive Failure where
  /-- A place below the path could not be visited. -/
  | unvisited (path : String) (obstacle : Obstacle)
  | unrendered (path : String) (error : FileError)
deriving DecidableEq

/-- The wording of a failure, which starts with the path in quotes. -/
def Failure.message : Failure → String
  | unvisited path obstacle => Text.quoted path ++ ": " ++ obstacle.describe
  | unrendered path error => Text.quoted path ++ ": " ++ error.message

/-! ### Runs -/

/-- How the bytes of a file are obtained. -/
abbrev ReadFile := String → Except FileFault ByteArray

/-- The request file at the path. -/
def loadFile (explain : Explain) (read : ReadFile) (path : String) :
    Except FileError RequestFile :=
  match read path with
  | .error fault => .error (.unreadable fault)
  | .ok bytes =>
    match String.fromUTF8? bytes with
    | none => .error .notText
    | some text =>
      match RequestFile.parse? text with
      | none => .error (.notRequestFile (explain text))
      | some file => .ok file

/-- What became of one file, and the notices on the way. -/
structure FileResult where
  notices : List Notice
  result : Except FileError String

/-- Render the file at the path. -/
def renderPath (format : OutputFormat) (explain : Explain) (read : ReadFile) (path : String) :
    FileResult :=
  match loadFile explain read path with
  | .error e => ⟨[], .error e⟩
  | .ok file =>
    let written := renderFile format file
    match written.result with
    | .error e => ⟨written.notices, .error (.notBuilt e)⟩
    | .ok text => ⟨written.notices ++ [.rendered path], .ok text⟩

/-- The trees at the paths of a run. -/
abbrev Trees := List (String × FileTree)

/-- The files that a run renders, in order. -/
def filePaths (extensions : List String) (trees : Trees) : List String :=
  trees.flatMap fun (path, tree) => (collectAt extensions path tree).paths

/-- What could not be visited in a run. -/
def visitFailures (extensions : List String) (trees : Trees) : List Failure :=
  trees.flatMap fun (path, tree) =>
    (collectAt extensions path tree).obstacles.map (Failure.unvisited path)

/-- What became of each of the files. -/
def renderPaths (format : OutputFormat) (explain : Explain) (read : ReadFile)
    (paths : List String) : List (String × FileResult) :=
  paths.map fun path => (path, renderPath format explain read path)

def rendered? : String × FileResult → Option String
  | (_, r) => r.result.toOption

def failure? : String × FileResult → Option Failure
  | (path, r) =>
    match r.result with
    | .ok _ => none
    | .error e => some (.unrendered path e)

/-- What a run has produced. -/
structure Report where
  /-- What was written, one text for each file, in order. -/
  rendered : List String
  /-- What went wrong: first what could not be visited, then what could not be rendered. -/
  failures : List Failure

/-- A report with the notices of the run. -/
structure Run where
  report : Report
  notices : List Notice

/-- Render the files below the given trees. -/
def run (options : Options) (trees : Trees) (read : ReadFile) (explain : Explain := .masked) :
    Run :=
  let paths := filePaths options.extensions trees
  let results := renderPaths options.format explain read paths
  { report :=
      { rendered := results.filterMap rendered?
        failures := visitFailures options.extensions trees ++ results.filterMap failure? }
    notices :=
      .scanning trees.length
        :: trees.flatMap (fun (path, tree) => collectNotices path tree)
        ++ .foundFiles paths.length
        :: results.flatMap fun (_, r) => r.notices }

namespace Report

/-- The wording of the failures. -/
def errors (r : Report) : List String := r.failures.map Failure.message

/-- The text for the output of the tool, or the message about the run having failed.  Any failure
fails the whole run, and so does finding nothing. -/
def outcome (r : Report) : Except String String :=
  if !r.failures.isEmpty then
    .error ("❌ Failed to render " ++ toString r.failures.length ++ " request files:\n  * "
      ++ Text.joinWith "\n  * " r.errors)
  else if r.rendered.isEmpty then .error "❌ No request files found."
  else .ok (Text.joinWith "\n" r.rendered)

end Report

end QueryComposer.Render
