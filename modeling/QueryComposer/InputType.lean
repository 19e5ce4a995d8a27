import QueryComposer.Text.Blank

/-!
# Input types

The type with which an operation declares a variable: one of seven kinds, required or not.  A
required type is written with an exclamation mark after the name of its kind.
-/

namespace QueryComposer

/-- The kinds of value that a variable can be declared to hold. -/
inductive InputKind where
  | boolean
  | enumeration
  | float
  | int
  | list
  | object
  | string
deriving DecidableEq

namespace InputKind

/-- The type name of the kind. -/
def name : InputKind → String
  | boolean => "Boolean"
  | enumeration => "Enum"
  | float => "Float"
  | int => "Int"
  | list => "List"
  | object => "Object"
  | string => "String"

/-- Every kind. -/
def all : List InputKind :=
  [boolean, enumeration, float, int, list, object, string]

/-- The kind with this type name. -/
def ofName? (name : String) : Option InputKind :=
  all.find? (·.name == name)

end InputKind

/-- The declared type of a variable. -/
structure InputType where
  /-- The kind of value. -/
  kind : InputKind
  /-- Whether a value must be supplied. -/
  required : Bool
deriving DecidableEq

namespace InputType

/-- Write the type after `sink`. -/
def appendTo (t : InputType) (sink : String) : String :=
  let sink := sink ++ t.kind.name
  if t.required then sink ++ "!" else sink

/-- The text of the type. -/
def toGraphQL (t : InputType) : String := t.appendTo ""

/-- The type that `name` writes: the name of a kind, and an exclamation mark if it is required. -/
def ofName? (name : String) : Option InputType :=
  match name.toList.getLast? with
  | some '!' =>
    (InputKind.ofName? (String.ofList name.toList.dropLast)).map fun kind => ⟨kind, true⟩
  | _ => (InputKind.ofName? name).map fun kind => ⟨kind, false⟩

end InputType

end QueryComposer
