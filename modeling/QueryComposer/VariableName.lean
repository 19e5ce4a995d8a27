/-!
# Names of variables

A variable may be named with or without its dollar sign.  Declarations and references carry the
sign; the values that are sent along are filed under the bare name.
-/

namespace QueryComposer.VariableName

/-- The name without its dollar sign, of which one is dropped. -/
def bare (name : String) : String :=
  match name.toList with
  | '$' :: rest => String.ofList rest
  | _ => name

/-- The name with its dollar sign. -/
def declared (name : String) : String :=
  match name.toList with
  | '$' :: _ => name
  | _ => "$" ++ name

end QueryComposer.VariableName
