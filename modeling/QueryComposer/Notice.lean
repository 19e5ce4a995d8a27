import QueryComposer.Definition.Basic
import QueryComposer.LogLevel
import QueryComposer.Text.Terminal

/-!
# Notices

What the tool tells about its work while it runs.  Notices are recorded as data in the order in
which they arise; a log shows those of at least a chosen level.
-/

namespace QueryComposer

/-- One event in a run. -/
inductive Notice where
  | levelChosen (level : LogLevel)
  /-- The environment asked for a level that there is not. -/
  | levelMisunderstood (setting : String)
  | scanning (pathCount : Nat)
  | skipped (path : String)
  | foundFile (path : String)
  /-- Something below the path could not be visited. -/
  | unvisited (path : String)
  | foundFiles (count : Nat)
  | builtField (name : String) (arguments selections inlineFragments : Nat)
  | builtFragment (name typeCondition : String) (selections : Nat)
  | builtOperation (kind : OperationKind) (name : String) (declarations selections : Nat)
  | rendered (path : String)
  | renderedAll (count : Nat)
deriving DecidableEq

namespace Notice

/-- How important the notice is. -/
def level : Notice → LogLevel
  | levelChosen _ | skipped _ | foundFile _ | unvisited _ | builtField .. | builtFragment .. =>
    .trace
  | scanning _ | foundFiles _ | builtOperation .. | rendered _ => .debug
  | renderedAll _ => .info
  | levelMisunderstood _ => .warn

/-- The wording of the notice. -/
def message : Notice → String
  | levelChosen level => "Initial logging level set to `" ++ level.name ++ "`."
  | levelMisunderstood setting =>
    "Invalid `LOG_LEVEL` environment variable value: `" ++ setting ++ "`"
  | scanning count => "Scanning " ++ toString count ++ " input paths..."
  | skipped path => "Skipping non-file: " ++ Text.quoted path ++ "."
  | foundFile path => "Found file at " ++ Text.quoted path ++ "."
  | unvisited path =>
    "Encountered an error while iterating recursive filesystem entities at/under "
      ++ Text.quoted path ++ "."
  | foundFiles count => "Found " ++ toString count ++ " request files to be rendered."
  | builtField name arguments selections inlineFragments =>
    "Built the `" ++ name ++ "` field with " ++ toString arguments ++ " arguments, "
      ++ toString selections ++ " selections and " ++ toString inlineFragments
      ++ " inline fragments."
  | builtFragment name typeCondition selections =>
    "Built the `" ++ name ++ "` fragment on `" ++ typeCondition ++ "` with "
      ++ toString selections ++ " selections."
  | builtOperation kind name declarations selections =>
    "Built " ++ kind.keyword ++ " `" ++ name ++ "` with " ++ toString declarations
      ++ " variables and " ++ toString selections ++ " root selections."
  | rendered path => "Rendered " ++ Text.quoted path ++ "."
  | renderedAll count => "✅ Rendered " ++ toString count ++ " request files."

/-- The wording of the notice as a log shows it. -/
def shown (notice : Notice) : String := Text.forTerminal notice.message

/-- The notices that a log of the level shows. -/
def shownAt (level : LogLevel) (notices : List Notice) : List Notice :=
  notices.filter fun notice => level.rank ≤ notice.level.rank

end Notice

/-! ### Notices of built nodes -/

/-- The notice that the field was built. -/
def Field.notice (f : Field) : Notice :=
  .builtField f.name f.arguments.size f.selections.length f.inlineFragments.length

def Fragment.notice (f : Fragment) : Notice :=
  .builtFragment f.name f.typeCondition f.selections.length

def Operation.notice (o : Operation) : Notice :=
  .builtOperation o.kind o.name o.declarations.size o.selections.length

/-! ### Recorded results -/

/-- A result that may be an error, with the notices that arose on the way to it. -/
structure Recorded (α : Type) where
  /-- The notices, in order. -/
  notices : List Notice
  /-- The result, or why there is none. -/
  result : Except BuildError α

namespace Recorded

variable {α β : Type}

/-- The result without any notice. -/
def silently (result : Except BuildError α) : Recorded α := ⟨[], result⟩

/-- The result with a notice of it; an error is not noted. -/
def noting (notice : α → Notice) (result : Except BuildError α) : Recorded α :=
  match result with
  | .ok a => ⟨[notice a], .ok a⟩
  | .error e => ⟨[], .error e⟩

/-- Go on with the result; an error ends the work and keeps the notices. -/
def andThen (r : Recorded α) (next : α → Recorded β) : Recorded β :=
  match r.result with
  | .ok a => ⟨r.notices ++ (next a).notices, (next a).result⟩
  | .error e => ⟨r.notices, .error e⟩

instance : Monad Recorded where
  pure a := silently (.ok a)
  bind := andThen

instance : MonadLift (Except BuildError) Recorded := ⟨silently⟩

@[simp] theorem result_silently (r : Except BuildError α) : (silently r).result = r := rfl

@[simp] theorem result_noting (notice : α → Notice) (r : Except BuildError α) :
    (noting notice r).result = r := by
  cases r <;> rfl

@[simp] theorem result_andThen (r : Recorded α) (next : α → Recorded β) :
    (r.andThen next).result = r.result.bind fun a => (next a).result := by
  unfold andThen
  cases r.result <;> rfl

end Recorded

end QueryComposer
