import QueryComposer.Arguments

/-!
# Selections

What is fetched is a tree of selections: fields, which may carry an alias, arguments and selections
of their own, and inline fragments, which apply selections to one type or under a directive.

A field with the empty name is a *root* field.  It only wraps a selection set at the top level and
has no place inside another one.  The builders refuse trees that break this or any other rule; the
types here hold trees of any shape.
-/

namespace QueryComposer

/-! ### Directives -/

/-- An annotation that changes how the fragment it stands on is executed. -/
structure Directive where
  /-- The arguments, in order. -/
  arguments : Arguments
  /-- The name, without the at sign. -/
  name : String

namespace Directive

/-- The directive without arguments. -/
def ofName (name : String) : Directive := ⟨∅, name⟩

/-- The directive with the arguments, each of which must have a literal form. -/
def withArguments (name : String) (arguments : Arguments) : Except BuildError Directive := do
  arguments.check
  return ⟨arguments, name⟩

/-- Equal names, and equal arguments in any order. -/
def equal (a b : Directive) : Bool :=
  a.arguments == b.arguments && a.name == b.name

instance : BEq Directive := ⟨equal⟩

/-- Write the directive after `sink`. -/
def appendTo (d : Directive) (sink : String) : String :=
  d.arguments.appendTo (sink ++ "@" ++ d.name)

/-- The text of the directive. -/
def toGraphQL (d : Directive) : String := d.appendTo ""

end Directive

/-! ### Fields and inline fragments -/

mutual

/-- A field with what is selected under it. -/
structure Field where
  /-- The name of the field in the response, when it is another one. -/
  aliasName : Option String
  /-- The arguments, in order. -/
  arguments : Arguments
  /-- The inline fragments, which follow the selections. -/
  inlineFragments : List InlineFragment
  /-- The name; empty for a root field. -/
  name : String
  /-- The fields selected under this one. -/
  selections : List Field

/-- Selections that apply to one type, under a directive, or both. -/
structure InlineFragment where
  /-- The directive under which the selections apply. -/
  directive : Option Directive
  /-- The fields that are selected. -/
  selections : List Field
  /-- The type to which the selections apply. -/
  typeCondition : Option String

end

/-! ### Text -/

/-- Write the alias and its colon after `sink`; an empty alias is none. -/
def appendAlias (aliasName : Option String) (sink : String) : String :=
  match aliasName with
  | none => sink
  | some a => if a = "" then sink else sink ++ a ++ ": "

/-- Write the type condition after `sink`. -/
def appendTypeCondition (typeCondition : Option String) (sink : String) : String :=
  match typeCondition with
  | none => sink
  | some type => sink ++ " on " ++ type

/-- Write the directive after `sink`, with a space before it. -/
def appendDirective (directive : Option Directive) (sink : String) : String :=
  match directive with
  | none => sink
  | some d => d.appendTo (sink ++ " ")

mutual

/-- Write the field after `sink`.  A root field is its selection set alone. -/
def Field.appendTo (f : Field) (sink : String) : String :=
  match f with
  | ⟨aliasName, arguments, inlineFragments, name, selections⟩ =>
    let head :=
      if name = "" then sink else arguments.appendTo (appendAlias aliasName sink ++ name)
    if selections.isEmpty && inlineFragments.isEmpty then head
    else
      let opened := head ++ (if name = "" then "\x7b " else " \x7b ")
      let selected := appendFields true selections opened
      appendInlineFragments selections.isEmpty inlineFragments selected ++ " \x7d"
termination_by structural f

/-- Write the inline fragment after `sink`. -/
def InlineFragment.appendTo (f : InlineFragment) (sink : String) : String :=
  match f with
  | ⟨directive, selections, typeCondition⟩ =>
    let head := appendDirective directive (appendTypeCondition typeCondition (sink ++ "..."))
    if selections.isEmpty then head
    else appendFields true selections (head ++ " \x7b ") ++ " \x7d"
termination_by structural f

/-- Write the fields after `sink`, a space before each but the `first`. -/
def appendFields (first : Bool) : List Field → String → String
  | [], sink => sink
  | f :: rest, sink => appendFields false rest (f.appendTo (if first then sink else sink ++ " "))
termination_by structural fs => fs

/-- Write the inline fragments after `sink`, a space before each but the `first`. -/
def appendInlineFragments (first : Bool) : List InlineFragment → String → String
  | [], sink => sink
  | f :: rest, sink =>
    appendInlineFragments false rest (f.appendTo (if first then sink else sink ++ " "))
termination_by structural fs => fs

end

/-- Write a space and the fields in braces after `sink`, or nothing when there are none. -/
def appendSelectionSet (selections : List Field) (sink : String) : String :=
  if selections.isEmpty then sink else appendFields true selections (sink ++ " \x7b ") ++ " \x7d"

/-- The text of the field. -/
def Field.toGraphQL (f : Field) : String := f.appendTo ""

/-- The text of the inline fragment. -/
def InlineFragment.toGraphQL (f : InlineFragment) : String := f.appendTo ""

/-! ### Fields -/

namespace Field

/-- The field of this name, with nothing else. -/
def ofName (name : String) : Field := ⟨none, ∅, [], name, []⟩

instance : Inhabited Field := ⟨ofName ""⟩

/-- Whether the field has no name. -/
def isRoot (f : Field) : Bool := f.name == ""

/-- The name of the field in the response: the alias if there is one, otherwise the name. -/
def selectedName (f : Field) : String :=
  match f.aliasName with
  | none => f.name
  | some a => if a = "" then f.name else a

/-- Fields are equal when their texts are. -/
def equal (f g : Field) : Bool := f.toGraphQL == g.toGraphQL

instance : BEq Field := ⟨equal⟩

end Field

/-- Refuses the selection set of `parent` when it holds a root field. -/
def checkSelections (parent : Parent) (selections : List Field) : Except BuildError Unit :=
  if selections.any Field.isRoot then
    .error (.structuralViolation (.nestedRootField parent))
  else .ok ()

/-- The root field over the selections. -/
def Field.root (selections : List Field) : Except BuildError Field := do
  checkSelections .rootField selections
  return ⟨none, ∅, [], "", selections⟩

/-! ### Inline fragments -/

/-- Equal directives, selections and type conditions. -/
def InlineFragment.equal (f g : InlineFragment) : Bool :=
  f.directive == g.directive && f.selections == g.selections
    && f.typeCondition == g.typeCondition

instance : BEq InlineFragment := ⟨InlineFragment.equal⟩

end QueryComposer
