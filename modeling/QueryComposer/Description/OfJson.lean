import QueryComposer.Description.Basic
import QueryComposer.Json.Reader

/-!
# Reading descriptions

A request file is a JSON text.  Each record in it is an object with known keys, none of them twice,
or an array of the parts in a fixed order from which trailing parts may be left out.  A part that is
left out takes its default if it has one.  An optional part may also be `null`.

Everything here gives `none` for a value of any other form.
-/

namespace QueryComposer

/-! ### Records -/

namespace Json

mutual

/-- How deeply brackets are nested in the value. -/
def depth : Json → Nat
  | array elements => elementsDepth elements + 1
  | object members => membersDepth members + 1
  | _ => 0
termination_by structural j => j

/-- The greatest depth of an element. -/
def elementsDepth : List Json → Nat
  | [] => 0
  | j :: rest => max j.depth (elementsDepth rest)
termination_by structural js => js

/-- The greatest depth of the value of a member. -/
def membersDepth : List (String × Json) → Nat
  | [] => 0
  | (_, j) :: rest => max j.depth (membersDepth rest)
termination_by structural ms => ms

end

/-- The parts of a record with the given keys, in the order of the keys; a part that is left out is
`none`. -/
def parts? (keys : List String) : Json → Option (List (Option Json))
  | object members =>
    let written := Entries.keys members
    if written.all keys.contains && decide written.Nodup then
      some (keys.map fun key => Entries.find? key members)
    else none
  | array elements =>
    if elements.length ≤ keys.length then
      some (elements.map some ++ List.replicate (keys.length - elements.length) none)
    else none
  | _ => none

/-- A text. -/
def text? : Json → Option String
  | string s => some s
  | _ => none

/-- The elements of an array. -/
def elements? : Json → Option (List Json)
  | array elements => some elements
  | _ => none

/-- The entries of an object whose values are read by `read?`. -/
def entries? {α : Type} (read? : Json → Option α) : Json → Option (OrderedMap α)
  | object members => do
    let entries ← members.mapM fun (key, j) => do
      return (key, ← read? j)
    return OrderedMap.ofList entries
  | _ => none

/-- The entries of an object with their values as they stand. -/
def map? (j : Json) : Option (OrderedMap Json) := j.entries? fun value => some value.merged

/-- A part that must be there. -/
def required? {α : Type} (read? : Json → Option α) (part : Option Json) : Option α :=
  part.bind read?

/-- A part with a default. -/
def withDefault? {α : Type} (default : α) (read? : Json → Option α) : Option Json → Option α
  | none => some default
  | some j => read? j

/-- A part that may be left out or `null`. -/
def optional? {α : Type} (read? : Json → Option α) : Option Json → Option (Option α)
  | none => some none
  | some null => some none
  | some j => (read? j).map some

end Json

open Json

/-! ### Selections -/

/-- The directive that the value describes. -/
def DirectiveDescription.ofJson? (j : Json) : Option DirectiveDescription := do
  match ← j.parts? ["name", "arguments"] with
  | [name, arguments] =>
    let name ← required? text? name
    let arguments ← withDefault? ∅ map? arguments
    return { name, arguments }
  | _ => none

mutual

/-- The field that the value describes, if records are nested at most `fuel` deep. -/
def fieldOfJson? : (fuel : Nat) → Json → Option FieldDescription
  | 0, _ => none
  | fuel + 1, j => do
    match ← j.parts? ["alias", "arguments", "inline_fragments", "name", "selection_set"] with
    | [aliasName, arguments, inlineFragments, name, selections] =>
      let aliasName ← optional? text? aliasName
      let arguments ← withDefault? ∅ map? arguments
      let inlineFragments ← withDefault? [] elements? inlineFragments
      let inlineFragments ← inlineFragments.mapM (inlineFragmentOfJson? fuel)
      let name ← withDefault? "" text? name
      let selections ← withDefault? [] elements? selections
      let selections ← selections.mapM (selectionOfJson? fuel)
      return { aliasName, arguments, inlineFragments, name, selections }
    | _ => none

/-- The inline fragment that the value describes. -/
def inlineFragmentOfJson? : (fuel : Nat) → Json → Option InlineFragmentDescription
  | 0, _ => none
  | fuel + 1, j => do
    match ← j.parts? ["directive", "selection_set", "type_condition"] with
    | [directive, selections, typeCondition] =>
      let directive ← optional? DirectiveDescription.ofJson? directive
      let selections ← required? elements? selections
      let selections ← selections.mapM (selectionOfJson? fuel)
      let typeCondition ← optional? text? typeCondition
      return { directive, selections, typeCondition }
    | _ => none

/-- The selection that the value describes: a text is the name of a field. -/
def selectionOfJson? : (fuel : Nat) → Json → Option SelectionDescription
  | _, .string name => some (.name name)
  | 0, _ => none
  | fuel + 1, j => (fieldOfJson? fuel j).map .field

end

/-- Enough fuel for the value: two steps for each bracket. -/
def descriptionFuel (j : Json) : Nat := 2 * j.depth + 2

/-- The field that the value describes. -/
def FieldDescription.ofJson? (j : Json) : Option FieldDescription :=
  fieldOfJson? (descriptionFuel j) j

/-- The selection set that the value describes. -/
def selectionsOfJson? (j : Json) : Option (List SelectionDescription) := do
  let elements ← j.elements?
  elements.mapM (selectionOfJson? (descriptionFuel j))

/-! ### Definitions -/

/-- The fragment that the value describes. -/
def FragmentDescription.ofJson? (j : Json) : Option FragmentDescription := do
  match ← j.parts? ["directive", "name", "selection_set", "type_condition"] with
  | [directive, name, selections, typeCondition] =>
    let directive ← optional? DirectiveDescription.ofJson? directive
    let name ← required? text? name
    let selections ← required? selectionsOfJson? selections
    let typeCondition ← required? text? typeCondition
    return { directive, name, selections, typeCondition }
  | _ => none

/-- The kind of operation with this keyword. -/
def OperationKind.ofKeyword? (keyword : String) : Option OperationKind :=
  if keyword = "query" then some .query
  else if keyword = "mutation" then some .mutation
  else none

/-- The kind of operation that the value names: its keyword, alone or as the key of `null`. -/
def OperationKind.ofJson? : Json → Option OperationKind
  | .string keyword => ofKeyword? keyword
  | .object [(keyword, .null)] => ofKeyword? keyword
  | _ => none

/-- The operation that the value describes. -/
def OperationDescription.ofJson? (j : Json) : Option OperationDescription := do
  match ← j.parts? ["kind", "name", "selection_set", "variables"] with
  | [kind, name, selections, declarations] =>
    let kind ← required? OperationKind.ofJson? kind
    let name ← withDefault? "" text? name
    let selections ← required? selectionsOfJson? selections
    let declarations ← withDefault? ∅ (entries? text?) declarations
    return { kind, name, selections, declarations }
  | _ => none

/-- The definition that the value describes: an object with its sort as the only key. -/
def DefinitionDescription.ofJson? : Json → Option DefinitionDescription
  | .object [("field", j)] => (FieldDescription.ofJson? j).map .field
  | .object [("fragment", j)] => (FragmentDescription.ofJson? j).map .fragment
  | .object [("operation", j)] => (OperationDescription.ofJson? j).map .operation
  | _ => none

/-! ### Request files -/

namespace RequestFile

/-- How deeply brackets may be nested in a request file. -/
def depthLimit : Nat := 127

/-- The request file that the value describes. -/
def ofJson? (j : Json) : Option RequestFile := do
  match ← j.parts? ["definitions", "variables"] with
  | [definitions, variableValues] =>
    let definitions ← required? elements? definitions
    let definitions ← definitions.mapM DefinitionDescription.ofJson?
    let variableValues ← optional? map? variableValues
    return { definitions, variableValues }
  | _ => none

/-- The request file that the text writes. -/
def parse? (text : String) : Option RequestFile := do
  ofJson? (← Json.parseWithin depthLimit text)

end RequestFile

end QueryComposer
