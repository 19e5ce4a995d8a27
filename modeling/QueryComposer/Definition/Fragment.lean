import QueryComposer.Selection.Draft

/-!
# Fragments

A fragment names a selection set on a type, so that it can be spread wherever that type is selected.
-/

namespace QueryComposer

/-- The definition of a fragment. -/
structure Fragment where
  /-- The directive on the definition. -/
  directive : Option Directive
  /-- The name by which the fragment is spread. -/
  name : String
  /-- The fields that are selected. -/
  selections : List Field
  /-- The type to which the fragment applies. -/
  typeCondition : String

namespace Fragment

/-- Equality part by part. -/
def equal (a b : Fragment) : Bool :=
  a.directive == b.directive && a.name == b.name && a.selections == b.selections
    && a.typeCondition == b.typeCondition

instance : BEq Fragment := ⟨equal⟩

/-- Write the definition after `sink`. -/
def appendTo (f : Fragment) (sink : String) : String :=
  let head := sink ++ "fragment " ++ f.name ++ " on " ++ f.typeCondition
  appendSelectionSet f.selections (appendDirective f.directive head)

/-- The text of the definition. -/
def toGraphQL (f : Fragment) : String := f.appendTo ""

/-! ### Drafts -/

/-- The parts of a fragment that have been given so far. -/
structure Draft where
  directive : Option Directive
  name : String
  selections : List Field
  typeCondition : String

/-- The draft of a fragment of this name on a type. -/
def draft (name typeCondition : String) : Draft := ⟨none, name, [], typeCondition⟩

namespace Draft

/-- Add a field after the selections that are there. -/
def addSelection (d : Draft) (field : Field) : Draft :=
  { d with selections := d.selections ++ [field] }

/-- Add the fields after the selections that are there. -/
def addSelections (d : Draft) (fields : List Field) : Draft :=
  { d with selections := d.selections ++ fields }

/-- Set the directive. -/
def setDirective (d : Draft) (directive : Directive) : Draft :=
  { d with directive := some directive }

/-- The fragment, or the first rule that it breaks: it has a name and a type condition, and no
selection is unnamed. -/
def build (d : Draft) : Except BuildError Fragment := do
  if d.name = "" then
    throw (.structuralViolation (.fragmentWithoutName d.typeCondition))
  if d.typeCondition = "" then
    throw (.structuralViolation (.fragmentWithoutTypeCondition d.name))
  checkSelections (.fragment d.name) d.selections
  return ⟨d.directive, d.name, d.selections, d.typeCondition⟩

/-- Equality part by part. -/
def equal (a b : Draft) : Bool :=
  a.directive == b.directive && a.name == b.name && a.selections == b.selections
    && a.typeCondition == b.typeCondition

instance : BEq Draft := ⟨equal⟩

end Draft

/-- The fragment of this name on a type. -/
def ofSelections (name typeCondition : String) (selections : List Field) :
    Except BuildError Fragment :=
  ((draft name typeCondition).addSelections selections).build

end Fragment

/-- The selection that spreads the fragment. -/
def Field.spread (f : Fragment) : Field := Field.ofName ("..." ++ f.name)

end QueryComposer
