import QueryComposer.Value.Literal
import QueryComposer.Value.OfJson

/-!
# Arguments

The arguments of a field or directive, in the order in which they were first given.  The variable
declarations of an operation have the same form, with types in place of values.
-/

namespace QueryComposer

/-- Values by name, in order of first insertion. -/
abbrev Arguments := OrderedMap Value

namespace Arguments

/-- Refuses arguments of which one has no literal form; the first such place is reported. -/
def check (arguments : Arguments) : Except BuildError Unit :=
  checkEntries arguments.entries
where
  /-- Checks the values in order. -/
  checkEntries : List (String × Value) → Except BuildError Unit
    | [] => .ok ()
    | (name, v) :: rest => do
      v.checkLiteral name
      checkEntries rest

/-- Equality without regard to order. -/
def equal (a b : Arguments) : Bool :=
  Value.equal (.object a.entries) (.object b.entries)

instance : BEq Arguments := ⟨equal⟩

/-- Write the entries after `sink`, a comma before each but the `first`. -/
def appendEntries (first : Bool) : List (String × Value) → String → String
  | [], sink => sink
  | (name, v) :: rest, sink =>
    let sink := if first then sink else sink ++ ", "
    appendEntries false rest (v.appendTo (sink ++ name ++ ": "))

/-- Write the arguments in parentheses after `sink`, or nothing when there are none. -/
def appendTo (arguments : Arguments) (sink : String) : String :=
  if arguments.isEmpty then sink else appendEntries true arguments.entries (sink ++ "(") ++ ")"

/-- The arguments that the members of a JSON object give. -/
def ofJsonMembers (members : List (String × Json)) : Except BuildError Arguments := do
  return OrderedMap.ofList (← convert members)
where
  /-- The values of the members, in order. -/
  convert : List (String × Json) → Except BuildError (List (String × Value))
    | [] => .ok []
    | (name, j) :: rest => do
      let v ← Value.ofJsonArgument name j
      return (name, v) :: (← convert rest)

end Arguments

end QueryComposer
