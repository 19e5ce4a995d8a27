import QueryComposer.Description.Basic
import QueryComposer.Notice

/-!
# Building what is described

The definitions that a description stands for.  They are built through the drafts, so every rule
holds for them as for definitions made by hand.  Parts are built before the whole: arguments first,
then selections from left to right, then inline fragments or the directive, then the node itself;
the first error ends the work.  Each field, fragment and operation that is built leaves a notice.
-/

namespace QueryComposer

/-- The directive that is described. -/
def DirectiveDescription.build (d : DirectiveDescription) : Except BuildError Directive := do
  let arguments ← Arguments.ofJsonMembers d.arguments.entries
  Directive.withArguments d.name arguments

/-- The directive that is described, if there is one. -/
def buildDirective (directive : Option DirectiveDescription) :
    Except BuildError (Option Directive) :=
  match directive with
  | none => .ok none
  | some d => do
    return some (← d.build)

mutual

/-- The field that is described. -/
def FieldDescription.build (d : FieldDescription) : Recorded Field :=
  match d with
  | ⟨aliasName, arguments, inlineFragments, name, selections⟩ => do
    let arguments ← Arguments.ofJsonMembers arguments.entries
    let selections ← buildSelections selections
    let inlineFragments ← buildInlineFragments inlineFragments
    let draft : Field.Draft := { aliasName, arguments, inlineFragments, name, selections }
    Recorded.noting Field.notice draft.build
termination_by structural d

/-- The inline fragment that is described. -/
def InlineFragmentDescription.build (d : InlineFragmentDescription) : Recorded InlineFragment :=
  match d with
  | ⟨directive, selections, typeCondition⟩ => do
    let selections ← buildSelections selections
    let directive ← buildDirective directive
    let draft : InlineFragment.Draft := { directive, selections, typeCondition }
    Recorded.silently draft.build
termination_by structural d

/-- The field that is selected; a name alone is a field with nothing else. -/
def SelectionDescription.build (d : SelectionDescription) : Recorded Field :=
  match d with
  | .name name => pure (Field.ofName name)
  | .field d => d.build
termination_by structural d

/-- The fields that are selected, in order. -/
def buildSelections : List SelectionDescription → Recorded (List Field)
  | [] => pure []
  | d :: rest => do
    let field ← d.build
    let fields ← buildSelections rest
    return field :: fields
termination_by structural ds => ds

/-- The inline fragments that are described, in order. -/
def buildInlineFragments : List InlineFragmentDescription → Recorded (List InlineFragment)
  | [] => pure []
  | d :: rest => do
    let fragment ← d.build
    let fragments ← buildInlineFragments rest
    return fragment :: fragments
termination_by structural ds => ds

end

/-- The fragment that is described. -/
def FragmentDescription.build (d : FragmentDescription) : Recorded Fragment := do
  let selections ← buildSelections d.selections
  let directive ← buildDirective d.directive
  let draft : Fragment.Draft :=
    { directive, name := d.name, selections, typeCondition := d.typeCondition }
  Recorded.noting Fragment.notice draft.build

/-- The declarations with the named types, in order.  A type that is unknown is reported under the
name of its variable. -/
def buildDeclarations : List (String × String) → Except BuildError (List (String × Value))
  | [] => .ok []
  | (name, typeName) :: rest =>
    match InputType.parse typeName with
    | .ok type => do
      return (name, .placeholder type) :: (← buildDeclarations rest)
    | .error (.unsupportedValue _ found) => .error (.unsupportedValue name found)
    | .error e => .error e

/-- The operation that is described. -/
def OperationDescription.build (d : OperationDescription) : Recorded Operation := do
  let selections ← buildSelections d.selections
  let declarations ← buildDeclarations d.declarations.entries
  let draft : Operation.Draft := { kind := d.kind, name := d.name, selections, declarations }
  Recorded.noting Operation.notice draft.build

/-- The definition that is described. -/
def DefinitionDescription.build : DefinitionDescription → Recorded Definition
  | .field d => do
    return .field (← d.build)
  | .fragment d => do
    return .fragment (← d.build)
  | .operation d => do
    return .operation (← d.build)

/-- The definitions that are described, in order. -/
def buildDefinitions : List DefinitionDescription → Recorded (List Definition)
  | [] => pure []
  | d :: rest => do
    let definition ← d.build
    let definitions ← buildDefinitions rest
    return definition :: definitions

/-- The definitions of the request file. -/
def RequestFile.build (file : RequestFile) : Recorded (List Definition) :=
  buildDefinitions file.definitions

end QueryComposer
