import QueryComposer.Selection.Draft

/-!
# Operations

An operation is what a server executes: a query or a mutation, with the variables it declares and
the fields it selects.  Its name may be empty.  Variables are declared under their name with the
dollar sign, each once and with a type.
-/

namespace QueryComposer

/-- A query or mutation. -/
structure Operation where
  /-- What the operation does. -/
  kind : OperationKind
  /-- The name; empty for an anonymous operation. -/
  name : String
  /-- The fields that are selected. -/
  selections : List Field
  /-- The declared types under the names of their variables. -/
  declarations : Arguments

namespace Operation

/-- Equality part by part, the variables in any order. -/
def equal (a b : Operation) : Bool :=
  a.kind == b.kind && a.name == b.name && a.selections == b.selections
    && a.declarations == b.declarations

instance : BEq Operation := ⟨equal⟩

/-- Write the operation after `sink`. -/
def appendTo (o : Operation) (sink : String) : String :=
  let head := sink ++ o.kind.keyword
  let named := if o.name = "" then head else head ++ " " ++ o.name
  appendSelectionSet o.selections (o.declarations.appendTo named)

/-- The text of the operation. -/
def toGraphQL (o : Operation) : String := o.appendTo ""

/-! ### Declarations -/

/-- The map of the declarations, given that those before are in `declared`.  A declaration holds a
type and its name has not been declared before. -/
def declareFrom (operationName : String) (declared : Arguments) :
    List (String × Value) → Except BuildError Arguments
  | [] => .ok declared
  | (name, value) :: rest =>
    let name := VariableName.declared name
    match value with
    | .placeholder _ =>
      if declared.contains name then
        .error (.structuralViolation (.duplicateVariableDeclaration operationName name))
      else declareFrom operationName (declared.insert name value) rest
    | _ => .error (.unsupportedValue name (.notDeclaration value.kind))

/-! ### Drafts -/

/-- The parts of an operation that have been given so far. -/
structure Draft where
  kind : OperationKind
  name : String
  selections : List Field
  declarations : List (String × Value)

/-- The draft of an anonymous operation without any part. -/
def draft (kind : OperationKind) : Draft := ⟨kind, "", [], []⟩

namespace Draft

/-- Add a field after the selections that are there. -/
def addSelection (d : Draft) (field : Field) : Draft :=
  { d with selections := d.selections ++ [field] }

/-- Add the fields after the selections that are there. -/
def addSelections (d : Draft) (fields : List Field) : Draft :=
  { d with selections := d.selections ++ fields }

/-- Declare a variable after those that are there. -/
def addVariable (d : Draft) (name : String) (value : Value) : Draft :=
  { d with declarations := d.declarations ++ [(name, value)] }

/-- Set the name. -/
def setName (d : Draft) (name : String) : Draft :=
  { d with name }

/-- The operation, or the first rule that it breaks: no selection is unnamed, every declaration
holds a type, and no variable is declared twice. -/
def build (d : Draft) : Except BuildError Operation := do
  checkSelections (.operation d.kind d.name) d.selections
  let declarations ← declareFrom d.name ∅ d.declarations
  return ⟨d.kind, d.name, d.selections, declarations⟩

/-- Equality part by part. -/
def equal (a b : Draft) : Bool :=
  a.kind == b.kind && a.name == b.name && a.selections == b.selections
    && a.declarations == b.declarations

instance : BEq Draft := ⟨equal⟩

end Draft

/-- The operation of this kind and name without variables. -/
def ofSelections (kind : OperationKind) (name : String) (selections : List Field) :
    Except BuildError Operation :=
  (((draft kind).setName name).addSelections selections).build

end Operation

/-- The field that selects what the operation selects, named after it.  The field of an anonymous
operation is a root field, which takes no alias. -/
def Field.ofOperation (o : Operation) (aliasName : Option String) : Field :=
  ⟨if o.name = "" then none else aliasName, ∅, [], o.name, o.selections⟩

end QueryComposer
