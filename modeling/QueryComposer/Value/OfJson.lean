import QueryComposer.Json.Basic
import QueryComposer.Value.Basic
import QueryComposer.Value.Path

/-!
# Values from JSON

A JSON value becomes the argument value of the same shape.  Two kinds of leaf have no counterpart:
`null`, and a whole number outside the 64-bit signed integers, which is refused rather than rounded.
The first of them in the order of the text is reported with its path.
-/

namespace QueryComposer.Value

/-- Whether the whole number is a 64-bit signed integer. -/
def isIntRange (n : Int) : Bool :=
  -9223372036854775808 ≤ n && n < 9223372036854775808

mutual

/-- The value of the JSON value at `path`. -/
def ofJsonAt (path : String) : Json → Except BuildError Value
  | .null => .error (.unsupportedValue path .null)
  | .bool b => .ok (boolean b)
  | .integer n =>
    if isIntRange n then .ok (int (Int64.ofInt n))
    else .error (.unsupportedValue path (.integerBeyondRange n))
  | .float x => .ok (float x)
  | .string s => .ok (string s)
  | .array elements => do
    return list (← ofElementsAt path 0 elements)
  | .object members => do
    return ofMembers (← ofMembersAt path members)
termination_by structural j => j

/-- The values of the elements of the array at `path` from `index` on. -/
def ofElementsAt (path : String) (index : Nat) : List Json → Except BuildError (List Value)
  | [] => .ok []
  | j :: rest => do
    let v ← ofJsonAt (Path.element path index) j
    return v :: (← ofElementsAt path (index + 1) rest)
termination_by structural js => js

/-- The values of the members of the object at `path`. -/
def ofMembersAt (path : String) :
    List (String × Json) → Except BuildError (List (String × Value))
  | [] => .ok []
  | (key, j) :: rest => do
    let v ← ofJsonAt (Path.member path key) j
    return (key, v) :: (← ofMembersAt path rest)
termination_by structural ms => ms

end

/-- The value of a JSON value that stands alone. -/
def ofJson (j : Json) : Except BuildError Value := ofJsonAt "" j

/-- The value of the argument of this name. -/
def ofJsonArgument (argument : String) (j : Json) : Except BuildError Value :=
  ofJsonAt argument j

end QueryComposer.Value
