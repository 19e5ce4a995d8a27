import QueryComposer.Json.Basic
import QueryComposer.OperationKind

/-!
# Descriptions

A request file describes definitions as data: names, arguments as JSON values, and nested
selections.  A description has the form of the file and obeys none of the rules of a document yet.
-/

namespace QueryComposer

/-- The description of a directive. -/
structure DirectiveDescription where
  /-- The arguments as JSON values, in order. -/
  arguments : OrderedMap Json
  name : String

mutual

/-- The description of a field. -/
structure FieldDescription where
  aliasName : Option String
  /-- The arguments as JSON values, in order. -/
  arguments : OrderedMap Json
  inlineFragments : List InlineFragmentDescription
  name : String
  selections : List SelectionDescription

/-- The description of an inline fragment. -/
structure InlineFragmentDescription where
  directive : Option DirectiveDescription
  selections : List SelectionDescription
  typeCondition : Option String

/-- A selection is described by a name alone or by a whole field. -/
inductive SelectionDescription where
  | name (name : String)
  | field (description : FieldDescription)

end

/-- The description of a fragment. -/
structure FragmentDescription where
  directive : Option DirectiveDescription
  name : String
  selections : List SelectionDescription
  typeCondition : String

/-- The description of an operation. -/
structure OperationDescription where
  kind : OperationKind
  name : String
  selections : List SelectionDescription
  /-- The names of the declared types under the names of the variables. -/
  declarations : OrderedMap String

/-- The description of a definition. -/
inductive DefinitionDescription where
  | field (description : FieldDescription)
  | fragment (description : FragmentDescription)
  | operation (description : OperationDescription)

/-- What a request file holds. -/
structure RequestFile where
  /-- The definitions, in order. -/
  definitions : List DefinitionDescription
  /-- The values to send along, when there are any. -/
  variableValues : Option (OrderedMap Json)

end QueryComposer
