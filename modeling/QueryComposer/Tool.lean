import QueryComposer.CommandLine

/-!
# A run of the tool

What the tool does once its command line is understood, as a function of what lies at the paths it
was given: what it prints, what it reports as an error, how it exits and what it logs.

Help, the texts about mistakes in the command line and the reasons why a text is no request file are
worded by libraries.  They are a parameter (`Tool.Wording`).
-/

namespace QueryComposer.Tool

open CommandLine Render

/-- The end of a run. -/
structure Exit where
  code : Nat
  /-- What is printed, line end included. -/
  output : String
  /-- The error report, line end included. -/
  errorReport : String
  /-- The notices of the whole run, in order. -/
  notices : List Notice

/-- The texts of the tool that the libraries word which read its command line and its files. -/
structure Wording where
  /-- What is shown when the tool is not told what to do. -/
  overview : String
  /-- What is shown when the tool ends without doing anything, for its arguments and the reason. -/
  usage : List String → UsageError → String
  /-- Why a text is no request file. -/
  explain : Explain

/-- Marks in place of the texts. -/
def Wording.masked : Wording where
  overview := "<help>\n"
  usage _ _ := "<usage>\n"
  explain := .masked

/-- The notices about the choice of the log level. -/
def levelNotices (choice : LogLevel.Choice) : List Notice :=
  .levelChosen choice.level ::
    match choice.misunderstood with
    | none => []
    | some setting => [.levelMisunderstood setting]

/-- Render what lies at the paths. -/
def render (wording : Wording) (options : Options) (trees : Trees) (read : ReadFile) : Exit :=
  let run := Render.run options trees read wording.explain
  match run.report.outcome with
  | .ok text => ⟨0, text ++ "\n", "", run.notices ++ [.renderedAll run.report.rendered.length]⟩
  | .error message => ⟨1, "", message ++ "\n", run.notices⟩

/-- Carry out the action. -/
def act (wording : Wording) (action : Action) (tree : String → Files.FileTree) (read : ReadFile) :
    Exit :=
  match action with
  | .overview => ⟨0, wording.overview, "", []⟩
  | .render options =>
    render wording options (options.paths.map fun path => (path, tree path)) read

/-- Carry out the command.  `setting` is the value of the environment variable for the log level,
and the notices of the result are those that the log shows. -/
def run (command : Command) (setting : Option String) (tree : String → Files.FileTree)
    (read : ReadFile) (wording : Wording := .masked) : Exit :=
  let choice := LogLevel.choose command.verbose setting
  let exit := act wording command.action tree read
  { exit with notices := Notice.shownAt choice.level (levelNotices choice ++ exit.notices) }

end QueryComposer.Tool
