import QueryComposer.Tool

/-!
# The program

Looks up what the command line asks about, hands it to `Tool.run` and shows what comes back.
Nothing is decided here: the file system is observed first, as file trees and the bytes of the files
to render, and the rest is a function of that.
-/

namespace QueryComposer.Program

open CommandLine Files

/-! ### Observing the file system -/

/-- The number of an error of the system, which may be given as a negative word. -/
def errorNumber (code : UInt32) : Nat :=
  code.toInt32.toInt.natAbs

/-- The reason that an error of the system stands for. -/
def faultOf (e : IO.Error) : FileFault :=
  match e with
  | .noFileOrDirectory .. => .missing
  | .inappropriateType _ code _ | .invalidArgument _ code _ =>
    match errorNumber code with
    | 20 => .notDirectory
    | 36 => .nameTooLong
    | 40 => .tooManyLinks
    | _ => .other e.toString
  | .permissionDenied .. => .other "Permission denied (os error 13)"
  | _ => .other e.toString

/-- The entry of this name in a directory, as the system names it. -/
def entryOf (directory name : String) : IO.FS.DirEntry := { root := directory, fileName := name }

mutual

/-- What lies at `path`, where a link may stand.  `above` are the resolved paths of the directories
on the way there, nearest first. -/
partial def observe (path : String) (above : List String) : IO FileTree := do
  let root := (entryOf path "").root
  match ← root.metadata.toBaseIO with
  | .error e => return .unreadable (faultOf e)
  | .ok found =>
    match found.type with
    | .file => return .file
    | .dir =>
      let resolved := (← IO.FS.realPath root).toString
      match above.findIdx? (· == resolved) with
      | some levels => return .loop levels
      | none => observeDirectory path resolved above
    | _ => return .special

/-- The directory at `path`, which is called `resolved` when no link is in its way. -/
partial def observeDirectory (path resolved : String) (above : List String) : IO FileTree := do
  match ← (entryOf path "").root.readDir.toBaseIO with
  | .error e => return .locked (faultOf e)
  | .ok entries =>
    let trees ← entries.toList.mapM fun e => do
      return (e.fileName, ← observeEntry path resolved (resolved :: above) e.fileName)
    return .directory trees

/-- The entry of this name in the directory at `path`. -/
partial def observeEntry (path resolved : String) (above : List String) (name : String) :
    IO FileTree := do
  let entry := entryOf resolved name
  match ← entry.path.symlinkMetadata.toBaseIO with
  | .error e => return .unreadable (faultOf e)
  | .ok found =>
    match found.type with
    | .file => return .file
    | .dir => observeDirectory (joinPath path name) entry.path.toString above
    | .symlink => observe (joinPath path name) above
    | .other => return .special

end

/-- The bytes of the file at the path. -/
def fetch (path : String) : IO (Except FileFault ByteArray) := do
  match ← (IO.FS.readBinFile path).toBaseIO with
  | .ok bytes => return .ok bytes
  | .error e => return .error (faultOf e)

/-- The answer for `path` among those looked up before. -/
def lookedUp {α : Type} (otherwise : α) (known : List (String × α)) (path : String) : α :=
  (known.lookup path).getD otherwise

/-! ### Showing the result -/

/-- The texts that libraries word are not known here, so marks are shown. -/
def wording : Tool.Wording := .masked

/-- Print the text and leave with the code. -/
def leave (arguments : List String) (e : UsageError) : IO UInt32 := do
  let text := wording.usage arguments e
  if e.exitCode = 0 then IO.print text else IO.eprint text
  return e.exitCode.toUInt32

/-- Look up what the command is about, carry it out and show the result. -/
def perform (command : Command) (setting : Option String) : IO UInt32 := do
  let (paths, extensions) :=
    match command.action with
    | .overview => ([], [])
    | .render options => (options.paths, options.extensions)
  let trees ← paths.mapM fun path => do return (path, ← observe path [])
  let wanted := Render.filePaths extensions trees
  let files ← wanted.mapM fun path => do return (path, ← fetch path)
  let exit := Tool.run command setting (lookedUp .special trees) (lookedUp (.error .missing) files)
    wording
  for notice in exit.notices do
    IO.eprintln (notice.level.name ++ " " ++ notice.shown)
  IO.eprint exit.errorReport
  IO.print exit.output
  return exit.code.toUInt32

end QueryComposer.Program

/-- The entry of the program. -/
def main (arguments : List String) : IO UInt32 := do
  match QueryComposer.CommandLine.parse arguments with
  | .error e => QueryComposer.Program.leave arguments e
  | .ok command => QueryComposer.Program.perform command (← IO.getEnv "LOG_LEVEL")
