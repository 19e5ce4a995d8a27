import QueryComposer.Description.Build
import QueryComposer.Proofs.Description.Arguments
import QueryComposer.Proofs.Nodes.Lawful
import QueryComposer.Proofs.Value.Refused

/-!
# Everything that is wrong with a description

`RequestFile.violations` lists every rule that the descriptions of a request file break, without
stopping at the first.  The checks that a node makes when it is built from a draft are compared here
with the rules that the node itself breaks, by `Settles`: what a field is called by its selector and
whether a directive is there are all that these checks ask about the parts built before.
-/

namespace QueryComposer

/-! ### Violations -/

/-- The violation, if the condition holds. -/
def violationIf (condition : Prop) [Decidable condition] (violation : StructuralViolation) :
    List BuildError :=
  if condition then [.structuralViolation violation] else []

/-- What no argument value stands for among the arguments. -/
def refusedArguments (entries : List (String × Json)) : List BuildError :=
  entries.flatMap fun entry => entry.2.refused entry.1

/-- The name of the field that is selected. -/
def SelectionDescription.fieldName : SelectionDescription → String
  | .name n => n
  | .field d => d.name

/-- The unnamed fields in the selection set of `parent`. -/
def unnamedSelections (parent : Parent) (selections : List SelectionDescription) :
    List BuildError :=
  selections.flatMap fun d => violationIf (d.fieldName = "") (.nestedRootField parent)

/-- The rules that a field itself breaks. -/
def fieldViolations (aliasName : Option String) (arguments : OrderedMap Json) (name : String)
    (selections : List SelectionDescription) : List BuildError :=
  violationIf (name = "" ∧ aliasName.getD "" ≠ "") (.aliasedRootField (aliasName.getD ""))
    ++ violationIf (name = "" ∧ arguments.entries ≠ []) .rootFieldWithArguments
    ++ unnamedSelections (.field name) selections

def inlineFragmentViolations (directive : Option DirectiveDescription)
    (selections : List SelectionDescription) (typeCondition : Option String) : List BuildError :=
  let type := typeCondition.filter (· ≠ "")
  violationIf (type = none ∧ directive = none) .inlineFragmentWithoutTypeConditionOrDirective
    ++ unnamedSelections (.inlineFragment type) selections

def directiveViolations (directive : Option DirectiveDescription) : List BuildError :=
  refusedArguments (directiveEntries directive)

mutual

/-- Everything that is wrong with the field. -/
def FieldDescription.violations : FieldDescription → List BuildError
  | ⟨aliasName, arguments, inlineFragments, name, selections⟩ =>
    refusedArguments arguments.entries ++ selectionViolations selections
      ++ inlineFragmentsViolations inlineFragments
      ++ fieldViolations aliasName arguments name selections
termination_by structural d => d

def InlineFragmentDescription.violations : InlineFragmentDescription → List BuildError
  | ⟨directive, selections, typeCondition⟩ =>
    selectionViolations selections ++ directiveViolations directive
      ++ inlineFragmentViolations directive selections typeCondition
termination_by structural d => d

/-- Everything that is wrong with the selection; a name alone is never wrong by itself. -/
def SelectionDescription.violations : SelectionDescription → List BuildError
  | .name _ => []
  | .field d => d.violations
termination_by structural d => d

/-- Everything that is wrong with the selections, from left to right. -/
def selectionViolations : List SelectionDescription → List BuildError
  | [] => []
  | d :: rest => d.violations ++ selectionViolations rest
termination_by structural ds => ds

def inlineFragmentsViolations : List InlineFragmentDescription → List BuildError
  | [] => []
  | d :: rest => d.violations ++ inlineFragmentsViolations rest
termination_by structural ds => ds

end

def FragmentDescription.violations (d : FragmentDescription) : List BuildError :=
  selectionViolations d.selections ++ directiveViolations d.directive
    ++ violationIf (d.name = "") (.fragmentWithoutName d.typeCondition)
    ++ violationIf (d.typeCondition = "") (.fragmentWithoutTypeCondition d.name)
    ++ unnamedSelections (.fragment d.name) d.selections

/-- The declarations of a type that there is not. -/
def unknownTypes (declarations : List (String × String)) : List BuildError :=
  declarations.flatMap fun (name, typeName) =>
    match InputType.ofName? (Text.trim typeName) with
    | some _ => []
    | none => [.unsupportedValue name (.unknownType (Text.trim typeName))]

/-- The variables that are declared again, given those that are declared before. -/
def duplicateVariables (operationName : String) (before : List String) :
    List String → List BuildError
  | [] => []
  | name :: rest =>
    violationIf (VariableName.declared name ∈ before)
        (.duplicateVariableDeclaration operationName (VariableName.declared name))
      ++ duplicateVariables operationName (before ++ [VariableName.declared name]) rest

def OperationDescription.violations (d : OperationDescription) : List BuildError :=
  selectionViolations d.selections ++ unknownTypes d.declarations.entries
    ++ unnamedSelections (.operation d.kind d.name) d.selections
    ++ duplicateVariables d.name [] d.declarations.keys

def DefinitionDescription.violations : DefinitionDescription → List BuildError
  | .field d => d.violations
  | .fragment d => d.violations
  | .operation d => d.violations

/-- Everything that is wrong with the request file, definition by definition. -/
def RequestFile.violations (file : RequestFile) : List BuildError :=
  file.definitions.flatMap DefinitionDescription.violations

/-! ### Arguments and directives -/

theorem settles_convert {entries : List (String × Json)} (h : ∀ entry ∈ entries, entry.2.IsKept) :
    Settles (fun vs => (∀ v ∈ vs, v.2.HasLiteral) ∧ (vs = [] ↔ entries = []))
      (Arguments.ofJsonMembers.convert entries) (refusedArguments entries) := by
  induction entries with
  | nil => exact .ok ⟨fun _ hv => absurd hv List.not_mem_nil, by simp⟩
  | cons entry rest ih =>
    obtain ⟨hentry, hrest⟩ := List.forall_mem_cons.mp h
    rw [Arguments.ofJsonMembers.convert, refusedArguments, List.flatMap_cons]
    refine (Value.settles_ofJsonAt hentry entry.1).bind fun v hv => ?_
    refine (ih hrest).bind_ok fun vs hvs => ?_
    exact ⟨(entry.1, v) :: vs, rfl, List.forall_mem_cons.mpr ⟨hv, hvs.1⟩, by simp⟩

/-- Arguments are refused for the first value without counterpart; those that are made have literal
forms, and there are none only if none are described. -/
theorem settles_ofJsonMembers {entries : List (String × Json)}
    (h : ∀ entry ∈ entries, entry.2.IsKept) :
    Settles (fun arguments => arguments.HaveLiterals ∧ (arguments.entries = [] ↔ entries = []))
      (Arguments.ofJsonMembers entries) (refusedArguments entries) := by
  rw [Arguments.ofJsonMembers]
  refine (settles_convert h).bind_ok fun vs hvs => ?_
  refine ⟨OrderedMap.ofList vs, rfl, fun v hv => hvs.1 v (Entries.mem_collect hv), ?_⟩
  exact Entries.collect_eq_nil_iff.trans hvs.2

theorem DirectiveDescription.settles_build {d : DirectiveDescription}
    (h : ∀ entry ∈ d.arguments.entries, entry.2.IsKept) :
    Settles (fun _ => True) d.build (refusedArguments d.arguments.entries) := by
  rw [build]
  refine (settles_ofJsonMembers h).bind_ok fun arguments harguments => ?_
  exact ⟨⟨arguments, d.name⟩, Directive.withArguments_eq_ok_iff.mpr ⟨rfl, ⟨harguments.1⟩⟩, trivial⟩

theorem settles_buildDirective {directive : Option DirectiveDescription}
    (h : ∀ entry ∈ directiveEntries directive, entry.2.IsKept) :
    Settles (fun built => built.isNone = directive.isNone) (buildDirective directive)
      (directiveViolations directive) := by
  cases directive with
  | none => exact .ok rfl
  | some d =>
    rw [buildDirective]
    exact (DirectiveDescription.settles_build h).bind_ok fun built _ => ⟨some built, rfl, rfl⟩

/-! ### Checks of a node -/

/-- Work that starts with a check settles the violation, followed by what is wrong besides. -/
theorem settles_guard {α : Type} {Q : α → Prop} {x : Except BuildError α} {condition : Prop}
    [Decidable condition] {violation : StructuralViolation} {more : List BuildError}
    (hpos : condition → x = .error (.structuralViolation violation))
    (hneg : ¬condition → Settles Q x more) :
    Settles Q x (violationIf condition violation ++ more) := by
  unfold violationIf
  by_cases h : condition
  · rw [if_pos h]
    exact hpos h
  · rw [if_neg h]
    exact hneg h

/-- The fields that are built for selections have the names that are described. -/
def NamesKept (selections : List SelectionDescription) (fields : List Field) : Prop :=
  fields.map Field.name = selections.map SelectionDescription.fieldName

/-- The check of a selection set reports its first unnamed field. -/
theorem settles_checkSelections {selections : List SelectionDescription} {fields : List Field}
    (h : NamesKept selections fields) (parent : Parent) :
    Settles (fun _ => AllNamed fields) (checkSelections parent fields)
      (unnamedSelections parent selections) := by
  have hnamed : AllNamed fields ↔ ∀ d ∈ selections, d.fieldName ≠ "" := by
    unfold AllNamed
    rw [← List.forall_mem_map (f := Field.name) (P := (· ≠ "")), h, List.forall_mem_map]
  cases hviolations : unnamedSelections parent selections with
  | nil =>
    have hall : AllNamed fields := by
      rw [hnamed]
      intro d hd hname
      have hnone := List.flatMap_eq_nil_iff.mp hviolations d hd
      rw [violationIf, if_pos hname] at hnone
      cases hnone
    exact ⟨(), checkSelections_eq_ok_iff.mpr hall, hall⟩
  | cons e rest =>
    -- All violations of the list are the same, so the first is the one that the check reports.
    have he : e ∈ unnamedSelections parent selections := hviolations ▸ List.mem_cons_self ..
    obtain ⟨d, hd, he⟩ := List.mem_flatMap.mp he
    unfold violationIf at he
    split at he
    · rename_i hname
      obtain rfl := List.mem_singleton.mp he
      have hnot : ¬AllNamed fields := fun hall => hnamed.mp hall d hd hname
      have hcheck : checkSelections parent fields ≠ .ok () := fun h =>
        hnot (checkSelections_eq_ok_iff.mp h)
      show checkSelections parent fields = .error _
      unfold checkSelections at hcheck ⊢
      split
      · rfl
      · rename_i hany
        rw [if_neg hany] at hcheck
        exact absurd rfl hcheck
    · exact absurd he List.not_mem_nil

/-! ### Drafts -/

section Drafts

variable {selections : List SelectionDescription}

/-- The draft of a field settles the rules that the field itself breaks. -/
theorem Field.Draft.settles_build {d : Draft} {arguments : OrderedMap Json}
    (hselections : NamesKept selections d.selections) (hliterals : d.arguments.HaveLiterals)
    (harguments : d.arguments.entries = [] ↔ arguments.entries = []) :
    Settles (fun f => f = d.toField) d.build
      (fieldViolations d.aliasName arguments d.name selections) := by
  unfold fieldViolations
  rw [List.append_assoc]
  refine settles_guard (fun h => ?_) fun halias => settles_guard (fun h => ?_) fun hentries => ?_
  · rw [build, checkRoot, if_pos h.1, if_pos h.2]
    rfl
  · have halias : ¬d.aliasName.getD "" ≠ "" := fun ha => halias ⟨h.1, ha⟩
    have hempty : ¬d.arguments.isEmpty = true := by
      rw [OrderedMap.isEmpty, List.isEmpty_iff, harguments]
      exact h.2
    rw [build, checkRoot, if_pos h.1, if_neg halias, if_neg hempty]
    rfl
  -- Past the two checks of an unnamed field only the selections can be wrong.
  · have hroot : d.checkRoot = .ok () := by
      refine checkRoot_eq_ok_iff.mpr ⟨fun hname => ?_, fun hname => ?_⟩
      · exact Classical.not_not.mp fun ha => halias ⟨hname, ha⟩
      · exact harguments.mpr (Classical.not_not.mp fun ha => hentries ⟨hname, ha⟩)
    rw [build, hroot]
    refine (settles_checkSelections hselections (.field d.name)).bind_ok fun _ _ => ?_
    rw [(Arguments.check_eq_ok_iff d.arguments).mpr hliterals]
    exact ⟨d.toField, rfl, rfl⟩

theorem InlineFragment.Draft.settles_build {d : Draft} {directive : Option DirectiveDescription}
    (hselections : NamesKept selections d.selections)
    (hdirective : d.directive.isNone = directive.isNone) :
    Settles (fun _ => True) d.build
      (inlineFragmentViolations directive selections d.typeCondition) := by
  unfold inlineFragmentViolations
  dsimp only
  refine settles_guard (fun h => ?_) fun h => ?_
  · rw [build, if_pos (by rw [h.1, hdirective, h.2]; rfl)]
    rfl
  · rw [build, if_neg ?_]
    · have hcheck := settles_checkSelections hselections
        (.inlineFragment (d.typeCondition.filter (· ≠ "")))
      exact hcheck.bind_ok fun _ _ => ⟨d.toInlineFragment, rfl, trivial⟩
    · rwa [hdirective, Bool.and_eq_true, Option.isNone_iff_eq_none, Option.isNone_iff_eq_none]

theorem Fragment.Draft.settles_build {d : Draft} (hselections : NamesKept selections d.selections) :
    Settles (fun _ => True) d.build
      (violationIf (d.name = "") (.fragmentWithoutName d.typeCondition)
        ++ violationIf (d.typeCondition = "") (.fragmentWithoutTypeCondition d.name)
        ++ unnamedSelections (.fragment d.name) selections) := by
  rw [List.append_assoc]
  refine settles_guard (fun hname => ?_) fun hname => ?_
  · rw [build, if_pos hname]
    rfl
  refine settles_guard (fun htype => ?_) fun htype => ?_
  · rw [build, if_neg hname, if_pos htype]
    rfl
  · rw [build, if_neg hname, if_neg htype]
    exact (settles_checkSelections hselections _).bind_ok fun _ _ => ⟨d.toFragment, rfl, trivial⟩

/-! Declarations are made one after the other, and those that are made so far are the ones that a
later one must not repeat. -/

/-- The declared names settle against the names that are declared before. -/
theorem Operation.settles_declareFrom (operationName : String)
    {declarations : List (String × Value)}
    (h : ∀ declaration ∈ declarations, ∃ t, declaration.2 = .placeholder t) :
    ∀ {declared : Arguments}, Settles (fun _ => True)
      (declareFrom operationName declared declarations)
      (duplicateVariables operationName declared.keys (Entries.keys declarations)) := by
  induction declarations with
  | nil => exact fun {declared} => .ok trivial
  | cons declaration rest ih =>
    obtain ⟨name, value⟩ := declaration
    obtain ⟨⟨t, rfl⟩, hrest⟩ := List.forall_mem_cons.mp h
    intro declared
    rw [Entries.keys, List.map_cons, duplicateVariables, declareFrom_placeholder]
    refine settles_guard (fun hmem => if_pos hmem) fun hmem => ?_
    -- A new name stands after the others.
    rw [if_neg hmem, ← OrderedMap.keys_insert_of_not_mem (.placeholder t) hmem]
    exact ih hrest

/-- Types are unknown in order; where all are known there is a declaration under each name. -/
theorem settles_buildDeclarations (declarations : List (String × String)) :
    Settles (fun built => Entries.keys built = Entries.keys declarations ∧
        ∀ declaration ∈ built, ∃ t, declaration.2 = .placeholder t)
      (buildDeclarations declarations) (unknownTypes declarations) := by
  induction declarations with
  | nil => exact .ok ⟨rfl, fun _ h => absurd h List.not_mem_nil⟩
  | cons declaration rest ih =>
    obtain ⟨name, typeName⟩ := declaration
    rw [buildDeclarations, unknownTypes, List.flatMap_cons, InputType.parse]
    -- An unknown type ends the work here; a known one adds nothing to the list.
    dsimp only
    cases InputType.ofName? (Text.trim typeName) with
    | none => rfl
    | some type =>
      refine ih.bind_ok fun built hbuilt => ⟨(name, .placeholder type) :: built, rfl, ?_, ?_⟩
      · rw [Entries.keys, List.map_cons, Entries.keys, List.map_cons]
        exact congrArg (name :: ·) hbuilt.1
      · exact List.forall_mem_cons.mpr ⟨⟨type, rfl⟩, hbuilt.2⟩

theorem Operation.Draft.settles_build {d : Draft} (hselections : NamesKept selections d.selections)
    (h : ∀ declaration ∈ d.declarations, ∃ t, declaration.2 = .placeholder t) :
    Settles (fun _ => True) d.build
      (unnamedSelections (.operation d.kind d.name) selections
        ++ duplicateVariables d.name [] (Entries.keys d.declarations)) := by
  rw [build]
  refine (settles_checkSelections hselections _).bind fun _ _ => ?_
  have hdeclare : Settles (fun _ => True) (declareFrom d.name ∅ d.declarations)
      (duplicateVariables d.name [] (Entries.keys d.declarations)) := settles_declareFrom d.name h
  exact hdeclare.bind_ok fun m _ => ⟨⟨d.kind, d.name, d.selections, m⟩, rfl, trivial⟩

end Drafts

end QueryComposer
