import QueryComposer.Text.Blank

/-!
# Log levels

How much the tool tells about its work.  The level is chosen on the command line or by an
environment variable; the command line wins.
-/

namespace QueryComposer

/-- How important a notice is, least first. -/
inductive LogLevel where
  | trace
  | debug
  | info
  | warn
deriving DecidableEq

namespace LogLevel

/-- The name of the level. -/
def name : LogLevel → String
  | trace => "TRACE"
  | debug => "DEBUG"
  | info => "INFO"
  | warn => "WARN"

/-- The place of the level, least important first. -/
def rank : LogLevel → Nat
  | trace => 0
  | debug => 1
  | info => 2
  | warn => 3

/-- The level with this name, in either case of the ASCII letters. -/
def ofName? (name : String) : Option LogLevel :=
  let upper := String.ofList (name.toList.map Char.toUpper)
  if upper = "DEBUG" ∨ upper = "VERBOSE" then some debug
  else if upper = "INFO" then some info
  else if upper = "TRACE" then some trace
  else none

/-- The chosen level, and the setting that was not understood, if there is one. -/
structure Choice where
  level : LogLevel
  misunderstood : Option String

/-- The level for a run: `debug` when the run is verbose, otherwise what the environment asks for,
and `info` when it asks for nothing or for no level. -/
def choose (verbose : Bool) (setting : Option String) : Choice :=
  if verbose then ⟨debug, none⟩
  else
    match setting.map Text.trim with
    | none => ⟨info, none⟩
    | some name =>
      match ofName? name with
      | some level => ⟨level, none⟩
      | none => ⟨info, some name⟩

end LogLevel

end QueryComposer
