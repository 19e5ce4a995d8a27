import QueryComposer.Double.Notation
import QueryComposer.InputType
import QueryComposer.OperationKind

/-!
# Why a node cannot be built

A node is refused either because the shape of the tree breaks a rule of the document, or because a
value stands where it cannot be written.  Both are recorded as causes; `message` is the only place
with their wording.
-/

namespace QueryComposer

/-! ### Values that cannot be written -/

/-- The kinds of argument value. -/
inductive ValueKind where
  | boolean
  | float
  | int
  | list
  | object
  | placeholder
  | string
  | reference
deriving DecidableEq

/-- How a message calls a kind of value. -/
def ValueKind.name : ValueKind → String
  | boolean => "Boolean"
  | float => "Float"
  | int => "Int"
  | list => "List"
  | object => "Object"
  | placeholder => "type placeholder"
  | string => "String"
  | reference => "variable reference"

/-- What was found in a place where it cannot stand. -/
inductive Finding where
  | nonFiniteFloat (value : Double)
  /-- A type where a value was expected. -/
  | placeholder (type : InputType)
  /-- A value where the declaration of a variable was expected. -/
  | notDeclaration (kind : ValueKind)
  | unknownType (name : String)
  | null
  | integerBeyondRange (value : Int)
deriving DecidableEq

/-- How a message describes the finding. -/
def Finding.describe : Finding → String
  | nonFiniteFloat x => "the non-finite Float `" ++ x.nonFiniteName ++ "`"
  | placeholder t =>
    "the type placeholder `" ++ t.toGraphQL
      ++ "` outside of an operation's variable declarations"
  | notDeclaration kind =>
    "a " ++ kind.name ++ " value where a variable type declaration was expected"
  | unknownType name => "the unknown variable type `" ++ name ++ "`"
  | null => "`null`"
  | integerBeyondRange n => "the integer `" ++ toString n ++ "` beyond the Int range"

/-! ### Trees that break a rule -/

/-- The owner of a selection set. -/
inductive Parent where
  /-- An unnamed field at the top level. -/
  | rootField
  /-- A field under its name, which may be empty. -/
  | field (name : String)
  /-- An inline fragment with its type condition. -/
  | inlineFragment (typeCondition : Option String)
  | fragment (name : String)
  /-- An operation; the empty name belongs to an anonymous one. -/
  | operation (kind : OperationKind) (name : String)
deriving DecidableEq

/-- How a message calls the owner of a selection set. -/
def Parent.describe : Parent → String
  | rootField => "a root field"
  | field name => "the `" ++ name ++ "` field"
  | inlineFragment none => "an inline fragment"
  | inlineFragment (some type) => "an inline fragment on `" ++ type ++ "`"
  | fragment name => "the `" ++ name ++ "` fragment"
  | operation kind name =>
    if name = "" then "an anonymous " ++ kind.keyword
    else "the `" ++ name ++ "` " ++ kind.keyword

/-- The rules on the shape of a document that can be broken. -/
inductive StructuralViolation where
  | aliasedRootField (aliasName : String)
  | duplicateVariableDeclaration (operationName variableName : String)
  | fragmentWithoutName (typeCondition : String)
  | fragmentWithoutTypeCondition (fragmentName : String)
  | inlineFragmentWithoutTypeConditionOrDirective
  | rootFieldWithArguments
  | nestedRootField (parent : Parent)
deriving DecidableEq

def StructuralViolation.message : StructuralViolation → String
  | aliasedRootField aliasName =>
    "A root (unnamed) field cannot carry the alias `" ++ aliasName ++ "`."
  | duplicateVariableDeclaration operationName variableName =>
    "The `" ++ variableName ++ "` variable is declared more than once on the `"
      ++ operationName ++ "` operation."
  | fragmentWithoutName typeCondition =>
    "Fragment definitions must be named, but a fragment on `" ++ typeCondition
      ++ "` was given an empty name."
  | fragmentWithoutTypeCondition fragmentName =>
    "Fragments must specify the type they apply to, but none was specified for the `"
      ++ fragmentName ++ "` fragment."
  | inlineFragmentWithoutTypeConditionOrDirective =>
    "Inline fragments must specify a type condition, a directive, or both."
  | rootFieldWithArguments => "A root (unnamed) field cannot carry arguments."
  | nestedRootField parent =>
    "A root (unnamed) field cannot be added to the selection set of " ++ parent.describe ++ "."

/-! ### Both together -/

/-- Why a node cannot be built. -/
inductive BuildError where
  | structuralViolation (violation : StructuralViolation)
  /-- A value cannot be written; the path leads from the argument to it. -/
  | unsupportedValue (path : String) (found : Finding)
deriving DecidableEq

namespace BuildError

/-- The wording of the error. -/
def message : BuildError → String
  | structuralViolation violation => "Invalid document structure: " ++ violation.message
  | unsupportedValue path found =>
    "Unsupported value at argument path `" ++ path ++ "`: found " ++ found.describe ++ "."

/-- The wording of the error followed by that of its cause, when it has one of its own. -/
def fullMessage (e : BuildError) : String :=
  match e with
  | structuralViolation violation => e.message ++ ": " ++ violation.message
  | unsupportedValue .. => e.message

end BuildError

/-! ### Reading input types -/

/-- The type that the text writes, blanks around it left aside. -/
def InputType.parse (text : String) : Except BuildError InputType :=
  let name := Text.trim text
  match InputType.ofName? name with
  | some type => .ok type
  | none => .error (.unsupportedValue "" (.unknownType name))

end QueryComposer
