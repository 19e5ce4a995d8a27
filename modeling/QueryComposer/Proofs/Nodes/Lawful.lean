import Mathlib.Logic.Basic
import QueryComposer.Definition.Basic
import QueryComposer.Proofs.OrderedMap
import QueryComposer.Proofs.Result
import QueryComposer.Proofs.Value.Literal

/-!
# The rules of a single node

What the rules of a document ask of one node, with the fields and directives below it taken as they
are: `Directive.IsLawful`, `Field.IsLawful`, `InlineFragment.IsLawful`, `Fragment.IsLawful` and
`Operation.IsLawful`.  Building from a draft gives the node of its parts exactly when that node is
lawful (`Field.Draft.build_eq_ok_iff` and its fellows); only the declarations of an operation are
made on the way (`Operation.isDeclaration_of_declareFrom`).
-/

namespace QueryComposer

/-! ### Directives -/

/-- The arguments of a directive have literal forms. -/
structure Directive.IsLawful (d : Directive) : Prop where
  literals : d.arguments.HaveLiterals

theorem Directive.isLawful_ofName (name : String) : (Directive.ofName name).IsLawful :=
  ⟨Arguments.haveLiterals_empty⟩

theorem Directive.withArguments_eq_ok_iff {name : String} {arguments : Arguments} {d : Directive} :
    Directive.withArguments name arguments = .ok d ↔
      d = ⟨arguments, name⟩ ∧ (Directive.mk arguments name).IsLawful := by
  rw [Directive.withArguments, check_bind_eq_ok_iff, Arguments.check_eq_ok_iff]
  constructor
  · rintro ⟨h, hd⟩
    exact ⟨(Except.ok.inj hd).symm, ⟨h⟩⟩
  · rintro ⟨rfl, h⟩
    exact ⟨h.literals, rfl⟩

/-! ### Selection sets -/

/-- No field of the selection set is unnamed. -/
def AllNamed (selections : List Field) : Prop := ∀ f ∈ selections, f.name ≠ ""

theorem any_isRoot_eq_false_iff {selections : List Field} :
    selections.any Field.isRoot = false ↔ AllNamed selections := by
  simp [AllNamed, Field.isRoot]

theorem checkSelections_eq_ok_iff {parent : Parent} {selections : List Field} :
    checkSelections parent selections = .ok () ↔ AllNamed selections := by
  rw [← any_isRoot_eq_false_iff, checkSelections]
  cases selections.any Field.isRoot with
  | true => simp
  | false => simp

/-! ### Fields -/

/-- A field selects named fields only and its arguments have literal forms; without a name it has
neither alias nor arguments. -/
structure Field.IsLawful (f : Field) : Prop where
  selections_named : AllNamed f.selections
  aliasName_of_unnamed : f.name = "" → f.aliasName.getD "" = ""
  arguments_of_unnamed : f.name = "" → f.arguments.entries = []
  literals : f.arguments.HaveLiterals

/-- A field without alias, arguments and inline fragments is lawful if its selections are named. -/
theorem Field.isLawful_of_selections {name : String} {selections : List Field}
    (h : AllNamed selections) : (Field.mk none ∅ [] name selections).IsLawful :=
  ⟨h, fun _ => rfl, fun _ => rfl, Arguments.haveLiterals_empty⟩

theorem Field.isLawful_ofName (name : String) : (Field.ofName name).IsLawful :=
  Field.isLawful_of_selections fun _ hf => absurd hf List.not_mem_nil

theorem Field.root_eq_ok_iff {selections : List Field} {f : Field} :
    Field.root selections = .ok f ↔ f = ⟨none, ∅, [], "", selections⟩ ∧ AllNamed selections := by
  rw [Field.root, check_bind_eq_ok_iff, checkSelections_eq_ok_iff]
  constructor
  · rintro ⟨h, hf⟩
    exact ⟨(Except.ok.inj hf).symm, h⟩
  · rintro ⟨rfl, h⟩
    exact ⟨h, rfl⟩

theorem Field.isLawful_ofOperation {o : Operation} (h : AllNamed o.selections)
    (aliasName : Option String) : (Field.ofOperation o aliasName).IsLawful := by
  refine ⟨h, ?_, fun _ => rfl, Arguments.haveLiterals_empty⟩
  intro hname
  simp only [Field.ofOperation] at hname ⊢
  rw [hname]
  rfl

namespace Field.Draft

/-- The field of the parts of the draft. -/
def toField (d : Draft) : Field :=
  ⟨d.aliasName, d.arguments, d.inlineFragments, d.name, d.selections⟩

theorem checkRoot_eq_ok_iff {d : Draft} :
    d.checkRoot = .ok () ↔
      (d.name = "" → d.aliasName.getD "" = "") ∧ (d.name = "" → d.arguments.entries = []) := by
  rw [checkRoot]
  by_cases hname : d.name = ""
  · by_cases halias : d.aliasName.getD "" = ""
    · by_cases harguments : d.arguments.entries = []
      · simp [hname, halias, OrderedMap.isEmpty, harguments]
      · simp [hname, halias, OrderedMap.isEmpty, harguments]
    · simp [hname, halias]
  · simp [hname]

/-- A field is built from its parts exactly when it is lawful. -/
theorem build_eq_ok_iff {d : Draft} {f : Field} :
    d.build = .ok f ↔ f = d.toField ∧ d.toField.IsLawful := by
  rw [build, check_bind_eq_ok_iff, check_bind_eq_ok_iff, check_bind_eq_ok_iff,
    checkRoot_eq_ok_iff, checkSelections_eq_ok_iff, Arguments.check_eq_ok_iff]
  constructor
  · rintro ⟨⟨halias, harguments⟩, hnamed, hliterals, hf⟩
    exact ⟨(Except.ok.inj hf).symm, ⟨hnamed, halias, harguments, hliterals⟩⟩
  · rintro ⟨rfl, h⟩
    exact ⟨⟨h.aliasName_of_unnamed, h.arguments_of_unnamed⟩, h.selections_named, h.literals, rfl⟩

end Field.Draft

/-! ### Inline fragments -/

/-- An inline fragment has a type condition or a directive, its type condition is not empty, and it
selects named fields only. -/
structure InlineFragment.IsLawful (f : InlineFragment) : Prop where
  condition : f.directive ≠ none ∨ f.typeCondition ≠ none
  typeCondition_ne : f.typeCondition ≠ some ""
  selections_named : AllNamed f.selections

namespace InlineFragment.Draft

/-- The inline fragment of the parts of the draft, an empty type condition being none. -/
def toInlineFragment (d : Draft) : InlineFragment :=
  ⟨d.directive, d.selections, d.typeCondition.filter (· ≠ "")⟩

theorem typeCondition_toInlineFragment_ne (d : Draft) :
    d.toInlineFragment.typeCondition ≠ some "" := by
  intro h
  have hne := (Option.filter_eq_some_iff.mp h).2
  simp at hne

/-- An inline fragment is built from its parts exactly when it is lawful. -/
theorem build_eq_ok_iff {d : Draft} {f : InlineFragment} :
    d.build = .ok f ↔ f = d.toInlineFragment ∧ d.toInlineFragment.IsLawful := by
  have hne := d.typeCondition_toInlineFragment_ne
  rw [build]
  simp only [toInlineFragment] at hne ⊢
  generalize d.typeCondition.filter (· ≠ "") = typeCondition at hne ⊢
  by_cases hcondition : (typeCondition.isNone && d.directive.isNone) = true
  · rw [if_pos hcondition]
    simp only [Bool.and_eq_true, Option.isNone_iff_eq_none] at hcondition
    constructor
    · rintro ⟨⟩
    · rintro ⟨-, h⟩
      exact absurd h.condition (by simp [hcondition])
  · rw [if_neg hcondition, check_bind_eq_ok_iff, checkSelections_eq_ok_iff]
    simp only [Bool.and_eq_true, Option.isNone_iff_eq_none, not_and_or] at hcondition
    constructor
    · rintro ⟨hnamed, hf⟩
      exact ⟨(Except.ok.inj hf).symm, ⟨hcondition.symm, hne, hnamed⟩⟩
    · rintro ⟨rfl, h⟩
      exact ⟨h.selections_named, rfl⟩

end InlineFragment.Draft

/-! ### Fragments -/

/-- A fragment has a name and a type condition, and it selects named fields only. -/
structure Fragment.IsLawful (f : Fragment) : Prop where
  name_ne : f.name ≠ ""
  typeCondition_ne : f.typeCondition ≠ ""
  selections_named : AllNamed f.selections

namespace Fragment.Draft

/-- The fragment of the parts of the draft. -/
def toFragment (d : Draft) : Fragment :=
  ⟨d.directive, d.name, d.selections, d.typeCondition⟩

/-- A fragment is built from its parts exactly when it is lawful. -/
theorem build_eq_ok_iff {d : Draft} {f : Fragment} :
    d.build = .ok f ↔ f = d.toFragment ∧ d.toFragment.IsLawful := by
  rw [build]
  by_cases hname : d.name = ""
  · rw [if_pos hname]
    constructor
    · rintro ⟨⟩
    · rintro ⟨-, h⟩
      exact absurd hname h.name_ne
  by_cases htype : d.typeCondition = ""
  · rw [if_neg hname, if_pos htype]
    constructor
    · rintro ⟨⟩
    · rintro ⟨-, h⟩
      exact absurd htype h.typeCondition_ne
  rw [if_neg hname, if_neg htype]
  show (checkSelections (.fragment d.name) d.selections >>= fun _ => .ok d.toFragment) = .ok f ↔ _
  rw [check_bind_eq_ok_iff, checkSelections_eq_ok_iff]
  constructor
  · rintro ⟨hnamed, hf⟩
    exact ⟨(Except.ok.inj hf).symm, ⟨hname, htype, hnamed⟩⟩
  · rintro ⟨rfl, h⟩
    exact ⟨h.selections_named, rfl⟩

end Fragment.Draft

/-! ### Operations -/

/-- The entry declares a variable: it has a type under a name with a dollar sign. -/
def IsDeclaration (entry : String × Value) : Prop :=
  (∃ rest, entry.1.toList = '$' :: rest) ∧ ∃ t, entry.2 = .placeholder t

/-- An operation selects named fields only and declares each variable with a type. -/
structure Operation.IsLawful (o : Operation) : Prop where
  selections_named : AllNamed o.selections
  declarations : ∀ entry ∈ o.declarations.entries, IsDeclaration entry

/-- The declared form of a name begins with a dollar sign. -/
theorem VariableName.toList_declared (name : String) :
    ∃ rest, (VariableName.declared name).toList = '$' :: rest := by
  rw [VariableName.declared]
  split
  · rename_i rest h
    exact ⟨rest, h⟩
  · exact ⟨name.toList, by rw [String.toList_append]; rfl⟩

namespace Operation

/-- A type is declared if nothing has been declared under its name before. -/
theorem declareFrom_placeholder (operationName : String) (declared : Arguments) (name : String)
    (t : InputType) (rest : List (String × Value)) :
    declareFrom operationName declared ((name, .placeholder t) :: rest) =
      if VariableName.declared name ∈ declared.keys then
        .error (.structuralViolation
          (.duplicateVariableDeclaration operationName (VariableName.declared name)))
      else declareFrom operationName
        (declared.insert (VariableName.declared name) (.placeholder t)) rest := by
  rw [declareFrom]
  by_cases hmem : VariableName.declared name ∈ declared.keys
  · rw [if_pos hmem]
    exact if_pos (List.contains_iff_mem.mpr hmem)
  · rw [if_neg hmem]
    exact if_neg fun h => hmem (List.contains_iff_mem.mp h)

/-- Declaring variables keeps every entry a declaration. -/
theorem isDeclaration_of_declareFrom {operationName : String}
    (declarations : List (String × Value)) :
    ∀ {declared m : Arguments}, (∀ entry ∈ declared.entries, IsDeclaration entry) →
      declareFrom operationName declared declarations = .ok m →
      ∀ entry ∈ m.entries, IsDeclaration entry := by
  induction declarations with
  | nil =>
    rintro declared m hdeclared ⟨⟩
    exact hdeclared
  | cons declaration rest ih =>
    obtain ⟨name, value⟩ := declaration
    intro declared m hdeclared h
    simp only [declareFrom] at h
    split at h
    · rename_i t
      -- A name that is new is declared with its type, and the entries before stay.
      split at h
      · cases h
      · refine ih ?_ h
        intro entry hentry
        rcases Entries.mem_put hentry with rfl | hentry
        · exact ⟨VariableName.toList_declared name, t, rfl⟩
        · exact hdeclared entry hentry
    · cases h

/-- The declarations under their names with dollar signs. -/
def declaredEntries (declarations : List (String × Value)) : List (String × Value) :=
  declarations.map fun declaration => (VariableName.declared declaration.1, declaration.2)

/-- The variables that are declared come behind those before, in order. -/
theorem entries_of_declareFrom_append (operationName : String)
    {declarations : List (String × Value)} :
    ∀ {declared m : Arguments}, declareFrom operationName declared declarations = .ok m →
      m.entries = declared.entries ++ declaredEntries declarations := by
  induction declarations with
  | nil =>
    rintro declared m ⟨⟩
    exact (List.append_nil _).symm
  | cons declaration rest ih =>
    obtain ⟨name, value⟩ := declaration
    intro declared m h
    cases value with
    | placeholder t =>
      rw [declareFrom_placeholder] at h
      split at h
      · cases h
      · rename_i hnew
        rw [ih h, OrderedMap.entries_insert_of_not_mem _ hnew, List.append_assoc]
        rfl
    | _ => cases h

/-- What has been declared in the end are all the declarations. -/
theorem entries_of_declareFrom (operationName : String) {declarations : List (String × Value)}
    {m : Arguments} (h : declareFrom operationName ∅ declarations = .ok m) :
    m.entries = declaredEntries declarations :=
  entries_of_declareFrom_append operationName h

/-- An operation is built with the kind, name and selections of the draft and with the declarations
made from its list, if no selection is unnamed and the declarations can be made. -/
theorem Draft.build_eq_ok_iff {d : Draft} {o : Operation} :
    d.build = .ok o ↔ AllNamed d.selections ∧
      ∃ m, declareFrom d.name ∅ d.declarations = .ok m ∧ o = ⟨d.kind, d.name, d.selections, m⟩ := by
  rw [Draft.build, check_bind_eq_ok_iff, checkSelections_eq_ok_iff, bind_eq_ok_iff]
  constructor
  · rintro ⟨hnamed, m, hm, ho⟩
    exact ⟨hnamed, m, hm, (Except.ok.inj ho).symm⟩
  · rintro ⟨hnamed, m, hm, rfl⟩
    exact ⟨hnamed, m, hm, rfl⟩

/-- What is built from a draft is lawful. -/
theorem Draft.isLawful_of_build {d : Draft} {o : Operation} (h : d.build = .ok o) :
    o.IsLawful ∧ o.selections = d.selections := by
  obtain ⟨hnamed, m, hm, rfl⟩ := Draft.build_eq_ok_iff.mp h
  have hempty : ∀ entry ∈ (∅ : Arguments).entries, IsDeclaration entry :=
    fun _ h => absurd h List.not_mem_nil
  exact ⟨⟨hnamed, isDeclaration_of_declareFrom d.declarations hempty hm⟩, rfl⟩

end Operation

end QueryComposer
