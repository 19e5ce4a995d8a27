import QueryComposer.Selection.Basic

/-!
# Drafts of selections

A draft collects the parts of a node call by call and checks nothing; `build` checks all of them at
once and gives the node or the first rule that is broken.  A draft is a value: building from it
leaves it as it is.
-/

namespace QueryComposer

/-! ### Fields -/

/-- The parts of a field that have been given so far. -/
structure Field.Draft where
  aliasName : Option String
  arguments : Arguments
  inlineFragments : List InlineFragment
  name : String
  selections : List Field

/-- The draft of a field of this name. -/
def Field.draft (name : String) : Field.Draft := ⟨none, ∅, [], name, []⟩

namespace Field.Draft

/-- Give the argument; a name that was given before keeps its place. -/
def addArgument (d : Draft) (name : String) (value : Value) : Draft :=
  { d with arguments := d.arguments.insert name value }

/-- Give all the arguments in order. -/
def addArguments (d : Draft) (arguments : Arguments) : Draft :=
  { d with arguments := d.arguments.insertMany arguments.entries }

/-- Add an inline fragment after those that are there. -/
def addInlineFragment (d : Draft) (fragment : InlineFragment) : Draft :=
  { d with inlineFragments := d.inlineFragments ++ [fragment] }

/-- Add a field after the selections that are there. -/
def addSelection (d : Draft) (field : Field) : Draft :=
  { d with selections := d.selections ++ [field] }

/-- Add the fields after the selections that are there. -/
def addSelections (d : Draft) (fields : List Field) : Draft :=
  { d with selections := d.selections ++ fields }

/-- Set the alias. -/
def setAlias (d : Draft) (aliasName : String) : Draft :=
  { d with aliasName := some aliasName }

/-- Refuses an alias or arguments on a field without name. -/
def checkRoot (d : Draft) : Except BuildError Unit :=
  if d.name = "" then
    let aliasName := d.aliasName.getD ""
    if aliasName ≠ "" then .error (.structuralViolation (.aliasedRootField aliasName))
    else if d.arguments.isEmpty then .ok ()
    else .error (.structuralViolation .rootFieldWithArguments)
  else .ok ()

/-- The field, or the first rule that it breaks: an unnamed field has neither alias nor arguments,
no selection is unnamed, and every argument has a literal form. -/
def build (d : Draft) : Except BuildError Field := do
  d.checkRoot
  checkSelections (.field d.name) d.selections
  d.arguments.check
  return ⟨d.aliasName, d.arguments, d.inlineFragments, d.name, d.selections⟩

/-- Equality part by part. -/
def equal (a b : Draft) : Bool :=
  a.aliasName == b.aliasName && a.arguments == b.arguments
    && a.inlineFragments == b.inlineFragments && a.name == b.name
    && a.selections == b.selections

instance : BEq Draft := ⟨equal⟩

end Field.Draft

/-! ### Inline fragments -/

/-- The parts of an inline fragment that have been given so far. -/
structure InlineFragment.Draft where
  directive : Option Directive
  selections : List Field
  typeCondition : Option String

/-- The draft of an inline fragment without any part. -/
def InlineFragment.draft : InlineFragment.Draft := ⟨none, [], none⟩

namespace InlineFragment.Draft

/-- Add a field after the selections that are there. -/
def addSelection (d : Draft) (field : Field) : Draft :=
  { d with selections := d.selections ++ [field] }

/-- Add the fields after the selections that are there. -/
def addSelections (d : Draft) (fields : List Field) : Draft :=
  { d with selections := d.selections ++ fields }

/-- Set the directive. -/
def setDirective (d : Draft) (directive : Directive) : Draft :=
  { d with directive := some directive }

/-- Set the type condition; the empty one is none. -/
def setTypeCondition (d : Draft) (type : String) : Draft :=
  { d with typeCondition := some type }

/-- The inline fragment, or the first rule that it breaks: it has a type condition or a directive,
and no selection is unnamed. -/
def build (d : Draft) : Except BuildError InlineFragment := do
  let typeCondition := d.typeCondition.filter (· ≠ "")
  if typeCondition.isNone && d.directive.isNone then
    throw (.structuralViolation .inlineFragmentWithoutTypeConditionOrDirective)
  checkSelections (.inlineFragment typeCondition) d.selections
  return ⟨d.directive, d.selections, typeCondition⟩

/-- Equality part by part. -/
def equal (a b : Draft) : Bool :=
  a.directive == b.directive && a.selections == b.selections
    && a.typeCondition == b.typeCondition

instance : BEq Draft := ⟨equal⟩

end InlineFragment.Draft

/-- The inline fragment on a type. -/
def InlineFragment.onType (type : String) (selections : List Field) :
    Except BuildError InlineFragment :=
  ((InlineFragment.draft.setTypeCondition type).addSelections selections).build

/-- The inline fragment under a directive. -/
def InlineFragment.underDirective (directive : Directive) (selections : List Field) :
    Except BuildError InlineFragment :=
  ((InlineFragment.draft.setDirective directive).addSelections selections).build

end QueryComposer
