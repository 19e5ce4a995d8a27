import QueryComposer.Definition.Basic
import QueryComposer.Json.Printer

/-!
# Request payloads

The JSON object that is sent to a server: the text to execute, the name of the operation if it has
one, and the values of the variables if any are given.
-/

namespace QueryComposer

/-- What is sent to a server. -/
structure Request where
  /-- The name of the operation to execute. -/
  operationName : Option String
  /-- The text of the document. -/
  query : String
  /-- The values of the variables by name. -/
  variableValues : Option (OrderedMap Json)

namespace Request

/-- The request for a text, without operation name and variables. -/
def ofQuery (query : String) : Request := ⟨none, query, none⟩

/-- The request for a definition; an operation is named if it has a name. -/
def ofDefinition (d : Definition) : Request := ⟨d.operationName?, d.toGraphQL, none⟩

/-- The request for an operation, named if it has a name. -/
def ofOperation (o : Operation) : Request :=
  ⟨if o.name = "" then none else some o.name, o.toGraphQL, none⟩

/-- Send a value for the variable, which is filed under its bare name. -/
def addVariable (r : Request) (name : String) (value : Json) : Request :=
  let values := r.variableValues.getD ∅
  { r with variableValues := some (values.insert (VariableName.bare name) value) }

/-- The payload: the name of the operation, the text and the variables, of which the first and the
last are left out when there are none. -/
def toJson (r : Request) : Json :=
  let name :=
    match r.operationName with
    | none => []
    | some name => [("operationName", .string name)]
  let values :=
    match r.variableValues with
    | none => []
    | some m => [("variables", .object m.entries)]
  .object (name ++ ("query", .string r.query) :: values)

/-- The text of the payload. -/
def text (r : Request) : String := r.toJson.text

/-- Equality part by part, the variables in any order. -/
def equal (a b : Request) : Bool :=
  a.operationName == b.operationName && a.query == b.query
    && a.variableValues.map valuesObject == b.variableValues.map valuesObject
where
  /-- The values as a JSON object. -/
  valuesObject (values : OrderedMap Json) : Json := .object values.entries

instance : BEq Request := ⟨equal⟩

end Request

end QueryComposer
