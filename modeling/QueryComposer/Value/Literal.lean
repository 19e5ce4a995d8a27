import QueryComposer.Value.Basic
import QueryComposer.Value.Path

/-!
# Values that can be written as literals

In the argument of a field or directive a value must have a literal form at every depth: neither a
number that is not finite nor a type may occur in it.  `checkLiteral` finds the first value without
one, in the order of the text.
-/

namespace QueryComposer.Value

mutual

/-- Refuses the value at `path` if something in it has no literal form. -/
def checkLiteral (path : String) : Value → Except BuildError Unit
  | float x =>
    if x.isFinite then .ok () else .error (.unsupportedValue path (.nonFiniteFloat x))
  | placeholder t => .error (.unsupportedValue path (.placeholder t))
  | list elements => checkElements path 0 elements
  | object members => checkMembers path members
  | _ => .ok ()
termination_by structural v => v

/-- Checks the elements of the list at `path` from `index` on. -/
def checkElements (path : String) (index : Nat) : List Value → Except BuildError Unit
  | [] => .ok ()
  | v :: rest => do
    v.checkLiteral (Path.element path index)
    checkElements path (index + 1) rest
termination_by structural vs => vs

/-- Checks the members of the object at `path`. -/
def checkMembers (path : String) : List (String × Value) → Except BuildError Unit
  | [] => .ok ()
  | (key, v) :: rest => do
    v.checkLiteral (Path.member path key)
    checkMembers path rest
termination_by structural ms => ms

end

end QueryComposer.Value
