import QueryComposer.Render.Report

/-!
# The command line

The tool has one subcommand, `render`, besides the built-in `help`.  Flags may be joined behind one
dash, a value may be attached to its option by an equals sign, and `--` ends the options.

The value of an option and the paths in a row are *pending* until something else follows them: only
then are they checked.  So the first mistake in the order of the arguments is reported, except that
an unknown option, and a value attached to a flag, are reported before a pending mistake.
-/

namespace QueryComposer.CommandLine

open Render

/-- Why the tool ends without doing anything. -/
inductive UsageError where
  | displayHelp
  | displayVersion
  | invalidValue
  | unknownArgument
  | invalidSubcommand
  | missingRequiredArgument
  | argumentConflict
  | tooManyValues
deriving DecidableEq

/-- The exit code that goes with ending early: asking for help or version is no mistake. -/
def UsageError.exitCode : UsageError → Nat
  | displayHelp | displayVersion => 0
  | _ => 2

/-- What the tool is asked to do. -/
inductive Action where
  | overview
  | render (options : Options)

/-- A command line that is understood. -/
structure Command where
  verbose : Bool
  action : Action

/-! ### Forms of arguments -/

/-- The forms that an argument can have. -/
inductive Token where
  /-- Two dashes alone. -/
  | endOfOptions
  /-- Two dashes and a name, and perhaps a value after an equals sign. -/
  | long (name : String) (attached : Option String)
  /-- One dash and letters. -/
  | short (letters : List Char)
  | plain (text : String)

/-- The form of the argument. -/
def token (argument : String) : Token :=
  match argument.toList with
  | ['-', '-'] => .endOfOptions
  | '-' :: '-' :: rest =>
    let name := String.ofList (rest.takeWhile (· ≠ '='))
    match rest.dropWhile (· ≠ '=') with
    | [] => .long name none
    | _ :: value => .long name (some (String.ofList value))
  | '-' :: c :: rest => .short (c :: rest)
  | _ => .plain argument

/-! ### The render subcommand -/

/-- The options of `render` that take a value. -/
inductive ValueOption where
  | format
  | extensions
deriving DecidableEq

/-- What has been given but not been checked yet. -/
inductive Pending where
  | nothing
  /-- An option and its value, once that has been given. -/
  | option (option : ValueOption) (value : Option String)
  /-- Paths in a row. -/
  | paths (paths : List String)

/-- What is known after some arguments of `render`. -/
structure RenderState where
  verbose : Bool
  format : Option OutputFormat
  extensions : Option (List String)
  paths : List String
  pending : Pending

/-- The state before the first argument. -/
def RenderState.initial : RenderState := ⟨false, none, none, [], .nothing⟩

/-- The format of this name. -/
def formatOfName? (name : String) : Option OutputFormat :=
  if name = "text" then some .text
  else if name = "json" then some .json
  else none

namespace RenderState

/-- Take the value of an option: the format once, and extensions as often as they are given. -/
def setOption (s : RenderState) (option : ValueOption) (value : String) :
    Except UsageError RenderState :=
  match option with
  | .format =>
    if s.format.isSome then .error .argumentConflict
    else
      match formatOfName? value with
      | some format => .ok { s with format := some format }
      | none => .error .invalidValue
  | .extensions =>
    .ok { s with extensions := some (s.extensions.getD [] ++ Text.split ',' value) }

/-- Check what is pending. -/
def settle (s : RenderState) : Except UsageError RenderState :=
  let s' := { s with pending := .nothing }
  match s.pending with
  | .nothing => .ok s'
  | .option _ none => .error .invalidValue
  | .option option (some value) => s'.setOption option value
  | .paths paths =>
    if paths.contains "" then .error .invalidValue else .ok { s' with paths := s.paths ++ paths }

/-- The flag for verbose output, which may be given once. -/
def setVerbose (s : RenderState) : Except UsageError RenderState := do
  let s ← s.settle
  if s.verbose then throw .argumentConflict
  return { s with verbose := true }

def addPath (s : RenderState) (path : String) : Except UsageError RenderState :=
  match s.pending with
  | .paths paths => .ok { s with pending := .paths (paths ++ [path]) }
  | _ => do
    let s ← s.settle
    return { s with pending := .paths [path] }

/-- Something that is neither an option nor behind the end of options: the value of the option
before it if that still lacks one, otherwise a path. -/
def addPlain (s : RenderState) (text : String) : Except UsageError RenderState :=
  match s.pending with
  | .option option none => .ok { s with pending := .option option (some text) }
  | _ => s.addPath text

/-- An option with a value, attached or still to come. -/
def addOption (s : RenderState) (option : ValueOption) (attached : Option String) :
    Except UsageError RenderState := do
  let s ← s.settle
  match attached with
  | some value => s.setOption option value
  | none => return { s with pending := .option option none }

/-- Flags behind one dash, in order. -/
def addShort (s : RenderState) : List Char → Except UsageError RenderState
  | [] => .ok s
  | 'v' :: rest => do
    let s ← s.setVerbose
    s.addShort rest
  | 'h' :: _ => do
    let _ ← s.settle
    throw .displayHelp
  | _ :: _ => .error .unknownArgument

def addLong (s : RenderState) (name : String) (attached : Option String) :
    Except UsageError RenderState :=
  if name = "format" then s.addOption .format attached
  else if name = "request-file-exts" then s.addOption .extensions attached
  else if name = "verbose" ∨ name = "help" then
    if attached.isSome then .error .tooManyValues
    else if name = "verbose" then s.setVerbose
    else do
      let _ ← s.settle
      throw .displayHelp
  else .error .unknownArgument

/-- The options once all arguments are read: text by default, files named `json`, and at least one
path. -/
def finish (s : RenderState) : Except UsageError (Bool × Options) := do
  let s ← s.settle
  if s.paths.isEmpty then throw .missingRequiredArgument
  return (s.verbose,
    { format := s.format.getD .text
      extensions := s.extensions.getD ["json"]
      paths := s.paths })

/-- Read the arguments one by one; `trailing` holds behind the end of options. -/
def readAll (s : RenderState) (trailing : Bool) : List String → Except UsageError RenderState
  | [] => .ok s
  | argument :: rest =>
    if trailing then do
      let s ← s.addPath argument
      s.readAll true rest
    else
      match token argument with
      | .endOfOptions => s.readAll true rest
      | .long name attached => do
        let s ← s.addLong name attached
        s.readAll false rest
      | .short letters => do
        let s ← s.addShort letters
        s.readAll false rest
      | .plain text => do
        let s ← s.addPlain text
        s.readAll false rest

end RenderState

/-- The options of `render`, and whether its output is verbose. -/
def parseRender (arguments : List String) : Except UsageError (Bool × Options) := do
  let s ← RenderState.initial.readAll false arguments
  s.finish

/-! ### The tool -/

/-- What `help` shows: the help of the tool or of a subcommand, which has none below it. -/
def helpOn : List String → UsageError
  | [] => .displayHelp
  | [name] => if name = "render" ∨ name = "help" then .displayHelp else .invalidSubcommand
  | _ => .invalidSubcommand

/-- Flags of the tool behind one dash, in order. -/
def readFlags (verbose : Bool) : List Char → Except UsageError Bool
  | [] => .ok verbose
  | 'v' :: rest => if verbose then .error .argumentConflict else readFlags true rest
  | 'h' :: _ => .error .displayHelp
  | 'V' :: _ => .error .displayVersion
  | _ :: _ => .error .unknownArgument

/-- A long flag of the tool. -/
def readLongFlag (verbose : Bool) (name : String) (attached : Option String) :
    Except UsageError Bool :=
  if name = "verbose" ∨ name = "help" ∨ name = "version" then
    if attached.isSome then .error .tooManyValues
    else if name = "help" then .error .displayHelp
    else if name = "version" then .error .displayVersion
    else if verbose then .error .argumentConflict
    else .ok true
  else .error .unknownArgument

/-- Read the arguments of the tool up to its subcommand. -/
def parseFrom (verbose : Bool) : List String → Except UsageError Command
  | [] => .ok ⟨verbose, .overview⟩
  | argument :: rest =>
    if argument = "render" then do
      let (more, options) ← parseRender rest
      return ⟨verbose || more, .render options⟩
    else if argument = "help" then .error (helpOn rest)
    else
      match token argument with
      | .endOfOptions =>
        match rest with
        | [] => .ok ⟨verbose, .overview⟩
        | next :: _ =>
          -- A subcommand cannot stand behind the end of options.
          if next = "render" ∨ next = "help" then .error .unknownArgument
          else .error .invalidSubcommand
      | .long name attached => do
        let verbose ← readLongFlag verbose name attached
        parseFrom verbose rest
      | .short letters => do
        let verbose ← readFlags verbose letters
        parseFrom verbose rest
      | .plain _ => .error .invalidSubcommand

/-- The command that the arguments of the tool give. -/
def parse (arguments : List String) : Except UsageError Command :=
  parseFrom false arguments

end QueryComposer.CommandLine
