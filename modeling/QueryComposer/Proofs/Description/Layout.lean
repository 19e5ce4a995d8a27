import Mathlib.Data.List.Forall2
import QueryComposer.Proofs.Description.FirstViolation
import QueryComposer.Proofs.InputType
import QueryComposer.Proofs.Nodes.Declarations
import QueryComposer.Proofs.Rendering.Layout
import QueryComposer.Proofs.Value.Conversion

/-!
# The text that is described

A description can be printed as it stands, without building anything: `FieldDescription.layout` and
its fellows lay out what is described with the rules for texts that nodes are laid out with.

Main statement: the definitions that are built from a request file are the described ones, one for
each description, in order and of the same sort, and the text of each is the text described
(`RequestFile.forall₂_isTextOf`).
-/

namespace QueryComposer

/-! ### Printers -/

mutual

/-- The text of the argument value for a JSON value. -/
def Json.layout : Json → String
  | .null => "null"
  | .bool b => if b then "true" else "false"
  | .integer n => toString n
  | .float x => Value.numberStyle.text x
  | .string s => Layout.string s
  | .array elements => Layout.list (layoutElements elements)
  | .object members => Layout.object (layoutMembers members)
termination_by structural j => j

def Json.layoutElements : List Json → List String
  | [] => []
  | j :: rest => j.layout :: layoutElements rest
termination_by structural js => js

def Json.layoutMembers : List (String × Json) → List (String × String)
  | [] => []
  | (key, j) :: rest => (key, j.layout) :: layoutMembers rest
termination_by structural ms => ms

end

/-- The arguments in the order of the file, with the texts of their values. -/
def layoutArguments (arguments : OrderedMap Json) : String :=
  Layout.arguments (arguments.entries.map fun entry => (entry.1, entry.2.layout))

def DirectiveDescription.layout (d : DirectiveDescription) : String :=
  "@" ++ d.name ++ layoutArguments d.arguments

mutual

def FieldDescription.layout : FieldDescription → String
  | ⟨aliasName, arguments, inlineFragments, name, selections⟩ =>
    Layout.selecting (Layout.aliasName aliasName ++ name ++ layoutArguments arguments)
      (layoutSelections selections ++ layoutInlineFragmentDescriptions inlineFragments)
termination_by structural d => d

/-- An empty type condition is none. -/
def InlineFragmentDescription.layout : InlineFragmentDescription → String
  | ⟨directive, selections, typeCondition⟩ =>
    let head :=
      "..." ++ Layout.optional " on " (typeCondition.filter (· ≠ ""))
        ++ Layout.optional " " (directive.map DirectiveDescription.layout)
    Layout.selecting head (layoutSelections selections)
termination_by structural d => d

def SelectionDescription.layout : SelectionDescription → String
  | .name n => n
  | .field d => d.layout
termination_by structural d => d

def layoutSelections : List SelectionDescription → List String
  | [] => []
  | d :: rest => d.layout :: layoutSelections rest
termination_by structural ds => ds

def layoutInlineFragmentDescriptions : List InlineFragmentDescription → List String
  | [] => []
  | d :: rest => d.layout :: layoutInlineFragmentDescriptions rest
termination_by structural ds => ds

end

def FragmentDescription.layout (d : FragmentDescription) : String :=
  let head :=
    "fragment " ++ d.name ++ " on " ++ d.typeCondition
      ++ Layout.optional " " (d.directive.map DirectiveDescription.layout)
  Layout.selecting head (layoutSelections d.selections)

/-- A variable is declared under its name with one dollar sign in front, unless it has one, and with
its type as it is named, blanks around it left aside. -/
def layoutDeclaration (declaration : String × String) : String × String :=
  let (name, typeName) := declaration
  (if name.toList.head? = some '$' then name else "$" ++ name, Text.trim typeName)

def OperationDescription.layout (d : OperationDescription) : String :=
  let name := if d.name = "" then "" else " " ++ d.name
  let declarations := Layout.arguments (d.declarations.entries.map layoutDeclaration)
  Layout.selecting (d.kind.keyword ++ name ++ declarations) (layoutSelections d.selections)

/-- The definition is of the sort that is described, and its text is the text described. -/
inductive Definition.IsTextOf : DefinitionDescription → Definition → Prop where
  | field {d : FieldDescription} {f : Field} : f.toGraphQL = d.layout →
      IsTextOf (.field d) (.field f)
  | fragment {d : FragmentDescription} {f : Fragment} : f.toGraphQL = d.layout →
      IsTextOf (.fragment d) (.fragment f)
  | operation {d : OperationDescription} {o : Operation} : o.toGraphQL = d.layout →
      IsTextOf (.operation d) (.operation o)

/-! ### Argument values -/

theorem Json.layoutElements_eq_map (elements : List Json) :
    layoutElements elements = elements.map layout := by
  induction elements with
  | nil => rfl
  | cons j rest ih => rw [layoutElements, ih, List.map_cons]

theorem Json.layoutMembers_eq_map (members : List (String × Json)) :
    layoutMembers members = members.map fun m => (m.1, m.2.layout) := by
  induction members with
  | nil => rfl
  | cons m rest ih => rw [layoutMembers, ih, List.map_cons]

theorem map_eq_of_forall₂ {α β γ : Type} {R : α → β → Prop} {f : α → γ} {g : β → γ} {as : List α}
    {bs : List β} (h : List.Forall₂ R as bs) (hR : ∀ b ∈ bs, ∀ {a}, R a b → f a = g b) :
    as.map f = bs.map g := by
  induction h with
  | nil => rfl
  | cons hab _ ih =>
    obtain ⟨hb, hbs⟩ := List.forall_mem_cons.mp hR
    rw [List.map_cons, List.map_cons, hb hab, ih hbs]

/-- Entries with the same keys and the same texts of values have the same texts. -/
theorem texts_eq_of_keys {ms : List (String × Value)} {members : List (String × Json)}
    (hkeys : Entries.keys ms = Entries.keys members)
    (hvalues : (ms.map Prod.snd).map Value.layout = (members.map Prod.snd).map Json.layout) :
    ms.map (fun m => (m.1, m.2.layout)) = members.map fun m => (m.1, m.2.layout) := by
  rw [List.map_map, List.map_map] at hvalues
  have hzip := congrArg₂ List.zip hkeys hvalues
  rwa [Entries.keys, Entries.keys, List.zip_map', List.zip_map'] at hzip

namespace Value

/-- An argument value that agrees with a JSON value has the text laid out for that. -/
theorem Mirrors.layout_eq {j : Json} : ∀ {v : Value}, v.Mirrors j → v.layout = j.layout := by
  induction j using Json.nestedInduction with
  | null =>
    rintro v ⟨⟩
  | bool | float | string =>
    rintro v ⟨⟩
    rfl
  | integer n =>
    intro v h
    cases h with
    | int hn => rw [layout, Json.layout, hn]
  | array elements ih =>
    intro v h
    cases h with
    | list helements =>
      rw [layout, Json.layout, layoutElements_eq_map, Json.layoutElements_eq_map,
        map_eq_of_forall₂ helements ih]
  | object members ih =>
    intro v h
    cases h with
    | object hkeys hmembers =>
      have hvalues := map_eq_of_forall₂ (f := layout) hmembers (List.forall_mem_map.mpr ih)
      rw [layout, Json.layout, layoutMembers_eq_map, Json.layoutMembers_eq_map,
        texts_eq_of_keys hkeys hvalues]

/-- The argument value that is made of a JSON value has the text laid out for that. -/
theorem layout_of_ofJsonAt {j : Json} (hj : j.IsProper) {path : String} {v : Value}
    (h : ofJsonAt path j = .ok v) : v.layout = j.layout :=
  (mirrors_of_ofJsonAt hj h).layout_eq

end Value

/-! ### Arguments and directives -/

theorem Arguments.convert_eq_ofMembersAt (entries : List (String × Json)) :
    ofJsonMembers.convert entries = Value.ofMembersAt "" entries := by
  induction entries with
  | nil => rfl
  | cons entry rest ih =>
    rw [ofJsonMembers.convert, Value.ofMembersAt, ih]
    rfl

section Directives

/-- The arguments have the texts that are laid out for the described ones. -/
theorem texts_of_ofJsonMembers {arguments : OrderedMap Json} {built : Arguments}
    (hproper : ∀ entry ∈ arguments.entries, entry.2.IsProper)
    (h : Arguments.ofJsonMembers arguments.entries = .ok built) :
    built.texts Value.layout = arguments.entries.map fun entry => (entry.1, entry.2.layout) := by
  rw [Arguments.ofJsonMembers, Arguments.convert_eq_ofMembersAt] at h
  obtain ⟨vs, hvs, h⟩ := bind_eq_ok_iff.mp h
  obtain rfl := Except.ok.inj h
  obtain ⟨hkeys, hvalues⟩ := Value.mirrors_of_ofMembersAt
    (fun entry hentry => Value.mirrors_of_ofJsonAt (hproper entry hentry)) hvs
  -- The values stand under the same keys, so none of them is written over.
  have hentries : (OrderedMap.ofList vs).entries = vs :=
    Entries.collect_of_nodup (hkeys ▸ arguments.nodup_keys)
  have htexts := map_eq_of_forall₂ hvalues fun _ _ _ hmirrors => hmirrors.layout_eq
  rw [Arguments.texts, hentries, texts_eq_of_keys hkeys htexts]

theorem DirectiveDescription.layout_of_build {d : DirectiveDescription} {built : Directive}
    (hproper : ∀ entry ∈ d.arguments.entries, entry.2.IsProper) (h : d.build = .ok built) :
    built.layout = d.layout := by
  rw [build] at h
  obtain ⟨arguments, harguments, h⟩ := bind_eq_ok_iff.mp h
  obtain ⟨rfl, -⟩ := Directive.withArguments_eq_ok_iff.mp h
  rw [Directive.layout, layout, texts_of_ofJsonMembers hproper harguments, layoutArguments]

theorem layout_of_buildDirective {directive : Option DirectiveDescription}
    {built : Option Directive} (hproper : ∀ entry ∈ directiveEntries directive, entry.2.IsProper)
    (h : buildDirective directive = .ok built) :
    built.map Directive.layout = directive.map DirectiveDescription.layout := by
  cases directive with
  | none =>
    obtain rfl := Except.ok.inj h
    rfl
  | some d =>
    rw [buildDirective] at h
    obtain ⟨d', hd', h⟩ := bind_eq_ok_iff.mp h
    obtain rfl := Except.ok.inj h
    rw [Option.map_some, Option.map_some, DirectiveDescription.layout_of_build hproper hd']

end Directives

/-! ### Fields, inline fragments and selections -/

theorem Layout.aliasName_eq_empty {aliasName : Option String} (h : aliasName.getD "" = "") :
    Layout.aliasName aliasName = "" := by
  cases aliasName with
  | none => rfl
  | some a =>
    have ha : a = "" := h
    rw [Layout.aliasName, if_pos ha]

/-- A lawful field without a name has neither alias nor arguments, so its head is laid out like any
other. -/
theorem Field.IsLawful.layout_eq {f : Field} (h : f.IsLawful) :
    f.layout = Layout.selecting (Layout.aliasName f.aliasName ++ f.name
        ++ Layout.arguments (f.arguments.texts Value.layout))
      (f.selections.map Field.layout ++ f.inlineFragments.map InlineFragment.layout) := by
  have hhead : (if f.name = "" then "" else
      Layout.aliasName f.aliasName ++ f.name ++ Layout.arguments (f.arguments.texts Value.layout)) =
      Layout.aliasName f.aliasName ++ f.name
        ++ Layout.arguments (f.arguments.texts Value.layout) := by
    by_cases hname : f.name = ""
    · have halias := Layout.aliasName_eq_empty (h.aliasName_of_unnamed hname)
      have htexts : f.arguments.texts Value.layout = [] := by
        rw [Arguments.texts, h.arguments_of_unnamed hname, List.map_nil]
      rw [if_pos hname, halias, hname, htexts]
      rfl
    · rw [if_neg hname]
  rw [Field.layout_eq, Arguments.texts_toGraphQL, hhead, funext Field.toGraphQL_eq_layout,
    funext InlineFragment.toGraphQL_eq_layout]

theorem Field.layout_ofName (name : String) : (Field.ofName name).layout = name := by
  rw [(Field.isLawful_ofName name).layout_eq]
  -- Neither alias nor arguments, and nothing is selected.
  show Layout.selecting ("" ++ name ++ "") [] = name
  rw [String.empty_append, String.append_empty, Layout.selecting, if_pos (Or.inr rfl)]
  exact String.append_empty

/-- Each of the arguments has a proper value. -/
abbrev AllProper (entries : List (String × Json)) : Prop := ∀ entry ∈ entries, entry.2.IsProper

theorem layout_of_buildSelections {ds : List SelectionDescription}
    (ih : ∀ d ∈ ds, ∀ {f}, d.build.result = .ok f → f.layout = d.layout) :
    ∀ {fields}, (buildSelections ds).result = .ok fields →
      fields.map Field.layout = layoutSelections ds := by
  induction ds with
  | nil =>
    rintro fields ⟨⟩
    rfl
  | cons d rest ih' =>
    obtain ⟨hd, hrest⟩ := List.forall_mem_cons.mp ih
    intro fields h
    rw [buildSelections, Recorded.result_bind] at h
    obtain ⟨f, hf, h⟩ := bind_eq_ok_iff.mp h
    rw [Recorded.result_bind] at h
    obtain ⟨fs, hfs, h⟩ := bind_eq_ok_iff.mp h
    obtain rfl := Except.ok.inj h
    rw [List.map_cons, layoutSelections, hd hf, ih' hrest hfs]

theorem layout_of_buildInlineFragments {ds : List InlineFragmentDescription}
    (ih : ∀ d ∈ ds, ∀ {f}, d.build.result = .ok f → f.layout = d.layout) :
    ∀ {fragments}, (buildInlineFragments ds).result = .ok fragments →
      fragments.map InlineFragment.layout = layoutInlineFragmentDescriptions ds := by
  induction ds with
  | nil =>
    rintro fragments ⟨⟩
    rfl
  | cons d rest ih' =>
    obtain ⟨hd, hrest⟩ := List.forall_mem_cons.mp ih
    intro fragments h
    rw [buildInlineFragments, Recorded.result_bind] at h
    obtain ⟨f, hf, h⟩ := bind_eq_ok_iff.mp h
    rw [Recorded.result_bind] at h
    obtain ⟨fs, hfs, h⟩ := bind_eq_ok_iff.mp h
    obtain rfl := Except.ok.inj h
    rw [List.map_cons, layoutInlineFragmentDescriptions, hd hf, ih' hrest hfs]

/-- A field that is built has the text laid out for its description if its parts have theirs. -/
theorem FieldDescription.layout_of_build_of_parts {d : FieldDescription} {f : Field}
    (hproper : AllProper d.arguments.entries)
    (hselections : ∀ {fields}, (buildSelections d.selections).result = .ok fields →
      fields.map Field.layout = layoutSelections d.selections)
    (hfragments : ∀ {fragments}, (buildInlineFragments d.inlineFragments).result = .ok fragments →
      fragments.map InlineFragment.layout = layoutInlineFragmentDescriptions d.inlineFragments)
    (h : d.build.result = .ok f) : f.layout = d.layout := by
  obtain ⟨aliasName, arguments, inlineFragments, name, selections⟩ := d
  rw [build, Recorded.result_bind, Recorded.result_lift] at h
  obtain ⟨built, hbuilt, h⟩ := bind_eq_ok_iff.mp h
  rw [Recorded.result_bind] at h
  obtain ⟨fields, hfields, h⟩ := bind_eq_ok_iff.mp h
  rw [Recorded.result_bind] at h
  obtain ⟨fragments, hfragment, h⟩ := bind_eq_ok_iff.mp h
  rw [Recorded.result_noting] at h
  obtain ⟨rfl, hlawful⟩ := Field.Draft.build_eq_ok_iff.mp h
  rw [hlawful.layout_eq, layout, layoutArguments]
  simp only [Field.Draft.toField]
  rw [texts_of_ofJsonMembers hproper hbuilt, hselections hfields, hfragments hfragment]

theorem InlineFragmentDescription.layout_of_build_of_parts {d : InlineFragmentDescription}
    {f : InlineFragment} (hproper : AllProper (directiveEntries d.directive))
    (hselections : ∀ {fields}, (buildSelections d.selections).result = .ok fields →
      fields.map Field.layout = layoutSelections d.selections)
    (h : d.build.result = .ok f) : f.layout = d.layout := by
  obtain ⟨directive, selections, typeCondition⟩ := d
  rw [build, Recorded.result_bind] at h
  obtain ⟨fields, hfields, h⟩ := bind_eq_ok_iff.mp h
  rw [Recorded.result_bind, Recorded.result_lift] at h
  obtain ⟨built, hbuilt, h⟩ := bind_eq_ok_iff.mp h
  obtain ⟨rfl, -⟩ := InlineFragment.Draft.build_eq_ok_iff.mp h
  rw [InlineFragment.Draft.toInlineFragment, InlineFragment.layout, layout, layoutFields_eq_map,
    hselections hfields, layout_of_buildDirective hproper hbuilt]

/-- **What is built of a field, an inline fragment or a selection** has the text described. -/
theorem layout_of_build_nested :
    (∀ d : FieldDescription, AllProper d.argumentEntries →
        ∀ {f}, d.build.result = .ok f → f.layout = d.layout) ∧
      (∀ d : InlineFragmentDescription, AllProper d.argumentEntries →
        ∀ {f}, d.build.result = .ok f → f.layout = d.layout) ∧
      ∀ d : SelectionDescription, AllProper d.argumentEntries →
        ∀ {f}, d.build.result = .ok f → f.layout = d.layout := by
  apply FieldDescription.nestedInduction
  · rintro ⟨aliasName, arguments, inlineFragments, name, selections⟩ hselections hfragments h f hf
    rw [FieldDescription.argumentEntries, selectionEntries_eq_flatMap,
      inlineFragmentEntries_eq_flatMap] at h
    simp only [AllProper, List.mem_append, List.mem_flatMap] at h
    refine FieldDescription.layout_of_build_of_parts ?_ ?_ ?_ hf
    · exact fun entry hentry => h entry (.inl (.inl hentry))
    · apply layout_of_buildSelections
      exact fun s hs => hselections s hs fun entry hentry => h entry (.inl (.inr ⟨s, hs, hentry⟩))
    · apply layout_of_buildInlineFragments
      exact fun i hi => hfragments i hi fun entry hentry => h entry (.inr ⟨i, hi, hentry⟩)
  · rintro ⟨directive, selections, typeCondition⟩ hselections h f hf
    rw [InlineFragmentDescription.argumentEntries, selectionEntries_eq_flatMap] at h
    simp only [AllProper, List.mem_append, List.mem_flatMap] at h
    refine InlineFragmentDescription.layout_of_build_of_parts ?_ ?_ hf
    · exact fun entry hentry => h entry (.inr hentry)
    · apply layout_of_buildSelections
      exact fun s hs => hselections s hs fun entry hentry => h entry (.inl ⟨s, hs, hentry⟩)
  · intro n _ f hf
    obtain rfl := Except.ok.inj hf
    exact Field.layout_ofName n
  · intro d hd h f hf
    exact hd h hf

/-! ### Definitions -/

theorem layout_of_selections {ds : List SelectionDescription} {fields : List Field}
    (hproper : AllProper (selectionEntries ds)) (h : (buildSelections ds).result = .ok fields) :
    fields.map Field.layout = layoutSelections ds := by
  rw [selectionEntries_eq_flatMap] at hproper
  refine layout_of_buildSelections (fun d hd => layout_of_build_nested.2.2 d fun e he => ?_) h
  exact hproper e (List.mem_flatMap.mpr ⟨d, hd, he⟩)

theorem FragmentDescription.layout_of_build {d : FragmentDescription} {f : Fragment}
    (hproper : AllProper (selectionEntries d.selections ++ directiveEntries d.directive))
    (h : d.build.result = .ok f) : f.layout = d.layout := by
  obtain ⟨hselections, hdirective⟩ := List.forall_mem_append.mp hproper
  rw [build, Recorded.result_bind] at h
  obtain ⟨fields, hfields, h⟩ := bind_eq_ok_iff.mp h
  rw [Recorded.result_bind, Recorded.result_lift] at h
  obtain ⟨built, hbuilt, h⟩ := bind_eq_ok_iff.mp h
  rw [Recorded.result_noting] at h
  obtain ⟨rfl, -⟩ := Fragment.Draft.build_eq_ok_iff.mp h
  rw [Fragment.Draft.toFragment, Fragment.layout, layout, layout_of_selections hselections hfields,
    layout_of_buildDirective hdirective hbuilt]

/-! ### Declarations -/

theorem declared_eq (name : String) :
    VariableName.declared name = if name.toList.head? = some '$' then name else "$" ++ name := by
  unfold VariableName.declared
  split
  · rename_i rest h
    rw [h, List.head?_cons, if_pos rfl]
  · rename_i h
    rw [if_neg fun hhead => ?_]
    obtain ⟨rest, hrest⟩ := List.head?_eq_some_iff.mp hhead
    exact h rest hrest

/-- The types are built in order, and each is written as it is named. -/
theorem layout_of_buildDeclarations {declarations : List (String × String)} :
    ∀ {built}, buildDeclarations declarations = .ok built →
      built.map (fun entry => (VariableName.declared entry.1, entry.2.layout)) =
        declarations.map layoutDeclaration := by
  induction declarations with
  | nil =>
    rintro built ⟨⟩
    rfl
  | cons declaration rest ih =>
    obtain ⟨name, typeName⟩ := declaration
    intro built h
    rw [buildDeclarations, InputType.parse] at h
    cases ht : InputType.ofName? (Text.trim typeName) with
    | none =>
      rw [ht] at h
      cases h
    | some t =>
      rw [ht] at h
      obtain ⟨built', hbuilt', h⟩ := bind_eq_ok_iff.mp h
      obtain rfl := Except.ok.inj h
      have htext : (Value.placeholder t).layout = Text.trim typeName :=
        t.toGraphQL_eq_layout.symm.trans (InputType.eq_toGraphQL_of_ofName? ht).symm
      rw [List.map_cons, List.map_cons, ih hbuilt', htext, declared_eq, layoutDeclaration]

theorem OperationDescription.layout_of_build {d : OperationDescription} {o : Operation}
    (hproper : AllProper (selectionEntries d.selections)) (h : d.build.result = .ok o) :
    o.layout = d.layout := by
  rw [build, Recorded.result_bind] at h
  obtain ⟨fields, hfields, h⟩ := bind_eq_ok_iff.mp h
  rw [Recorded.result_bind, Recorded.result_lift] at h
  obtain ⟨built, hbuilt, h⟩ := bind_eq_ok_iff.mp h
  rw [Recorded.result_noting] at h
  obtain ⟨-, m, hm, rfl⟩ := Operation.Draft.build_eq_ok_iff.mp h
  have htexts : m.texts Value.layout = d.declarations.entries.map layoutDeclaration := by
    rw [Arguments.texts, Operation.entries_of_declareFrom d.name hm,
      ← layout_of_buildDeclarations hbuilt, Operation.declaredEntries, List.map_map]
    rfl
  rw [Operation.layout, layout, layout_of_selections hproper hfields, htexts]

/-! ### Request files -/

theorem DefinitionDescription.isTextOf_of_build {d : DefinitionDescription}
    {definition : Definition} (hproper : AllProper d.argumentEntries)
    (h : d.build.result = .ok definition) :
    definition.IsTextOf d := by
  cases d with
  | field d =>
    rw [build, Recorded.result_bind] at h
    obtain ⟨f, hf, h⟩ := bind_eq_ok_iff.mp h
    obtain rfl := Except.ok.inj h
    exact .field (f.toGraphQL_eq_layout.trans (layout_of_build_nested.1 d hproper hf))
  | fragment d =>
    rw [build, Recorded.result_bind] at h
    obtain ⟨f, hf, h⟩ := bind_eq_ok_iff.mp h
    obtain rfl := Except.ok.inj h
    exact .fragment (f.toGraphQL_eq_layout.trans (FragmentDescription.layout_of_build hproper hf))
  | operation d =>
    rw [build, Recorded.result_bind] at h
    obtain ⟨o, ho, h⟩ := bind_eq_ok_iff.mp h
    obtain rfl := Except.ok.inj h
    exact .operation (o.toGraphQL_eq_layout.trans (OperationDescription.layout_of_build hproper ho))

theorem isTextOf_of_buildDefinitions {ds : List DefinitionDescription}
    (hproper : ∀ d ∈ ds, AllProper d.argumentEntries) :
    ∀ {definitions}, (buildDefinitions ds).result = .ok definitions →
      List.Forall₂ (fun d definition => definition.IsTextOf d) ds definitions := by
  induction ds with
  | nil =>
    rintro definitions ⟨⟩
    exact .nil
  | cons d rest ih =>
    obtain ⟨hd, hrest⟩ := List.forall_mem_cons.mp hproper
    intro definitions h
    rw [buildDefinitions, Recorded.result_bind] at h
    obtain ⟨definition, hdefinition, h⟩ := bind_eq_ok_iff.mp h
    rw [Recorded.result_bind] at h
    obtain ⟨definitions', hdefinitions, h⟩ := bind_eq_ok_iff.mp h
    obtain rfl := Except.ok.inj h
    exact .cons (DefinitionDescription.isTextOf_of_build hd hdefinition) (ih hrest hdefinitions)

namespace RequestFile

/-- **What is built of a request file is what it describes.**  There is one definition for each
description, in the same order and of the same sort, and the text of the definition is the text that
the description lays out. -/
theorem forall₂_isTextOf {file : RequestFile} {definitions : List Definition}
    (hfile : file.IsProper) (h : file.build.result = .ok definitions) :
    List.Forall₂ (fun d definition => definition.IsTextOf d) file.definitions definitions := by
  refine isTextOf_of_buildDefinitions (fun d hd entry hentry => ?_) h
  exact hfile.arguments entry (List.mem_flatMap.mpr ⟨d, hd, hentry⟩)

/-- A query with a variable, a named argument and an inline fragment. -/
theorem forall₂_isTextOf_query :
    let user := "\x7b\"name\":\"user\",\"arguments\":\x7b\"id\":\"$id\"\x7d," ++
      "\"selection_set\":[\"name\"],\"inline_fragments\":[" ++
      "\x7b\"type_condition\":\"Admin\",\"selection_set\":[\"role\"]\x7d]\x7d"
    let operation := "\x7b\"kind\":\"query\",\"variables\":\x7b\"id\":\" Int! \"\x7d," ++
      "\"selection_set\":[" ++ user ++ "]\x7d"
    let text := "\x7b\"definitions\":[\x7b\"operation\":" ++ operation ++ "\x7d]\x7d"
    ∃ file definitions, parse? text = some file ∧ file.build.result = .ok definitions ∧
      definitions.map Definition.toGraphQL =
        ["query($id: Int!) \x7b user(id: $id) \x7b name ... on Admin \x7b role \x7d \x7d \x7d"] ∧
      List.Forall₂ (fun d definition => definition.IsTextOf d) file.definitions definitions := by
  intro user operation text
  have hread : ((parse? text).map fun file =>
      file.build.result.toOption.map fun definitions => definitions.map Definition.toGraphQL) =
      some (some ["query($id: Int!) \x7b user(id: $id) " ++
        "\x7b name ... on Admin \x7b role \x7d \x7d \x7d"]) := by
    decide +kernel
  obtain ⟨file, hfile, hbuilt⟩ := Option.map_eq_some_iff.mp hread
  obtain ⟨definitions, hdefinitions, htexts⟩ := Option.map_eq_some_iff.mp hbuilt
  have hresult : file.build.result = .ok definitions := toOption_eq_some_iff.mp hdefinitions
  exact ⟨file, definitions, hfile, hresult, htexts,
    forall₂_isTextOf (isProper_of_parse? hfile) hresult⟩

end RequestFile

end QueryComposer
