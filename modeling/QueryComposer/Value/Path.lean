/-!
# Paths to values

A message says where in an argument a value stands by a path: the name of the argument, then the
index of each list element in brackets and the key of each object member after a point.  Where the
path is still empty, a key stands without the point.
-/

namespace QueryComposer.Path

/-- The path of the element at `index`. -/
def element (path : String) (index : Nat) : String :=
  path ++ "[" ++ toString index ++ "]"

/-- The path of the member under `key`. -/
def member (path key : String) : String :=
  if path = "" then key else path ++ "." ++ key

end QueryComposer.Path
