import QueryComposer.Proofs.Description.FirstViolation
import QueryComposer.Proofs.Json.Records
import QueryComposer.Proofs.Json.RoundTrip

/-!
# The ways to write a request file

A request file can be written in many ways.  Each record in it is an object with the keys in any
order or an array of the parts; a part with a default may be left out or written, an optional part
may be left out or `null`, and a field of which there is only the name may be selected by the name
alone or by a record.  `RequestFile.WrittenIn` says that a text writes a file in one of these ways,
chosen anew at every record.

However a file is written, the text is read and the same definitions are built, or the same error
arises (`RequestFile.build_of_writtenIn`).  What is read need not be the file itself, since a name
and a record of the name alone are different selections; they are built alike.
-/

namespace QueryComposer

open Json

/-! ### Ways to write a description -/

/-- The directive is written by the value. -/
structure DirectiveDescription.WrittenBy (d : DirectiveDescription) (j : Json) : Prop where
  record : j.IsRecord ["name", "arguments"]
  name : Required (IsText d.name) (j.part? 0 "name")
  arguments : Defaulted (d.arguments = ∅) (IsValueMap d.arguments) (j.part? 1 "arguments")

/-- A field with these parts is written by the value, where it is said of the inline fragments and
of the selections how they are written. -/
structure WritesField (aliasName : Option String) (arguments : OrderedMap Json)
    (inlineFragments : Option Json → Prop) (name : String) (selections : Option Json → Prop)
    (j : Json) : Prop where
  record : j.IsRecord ["alias", "arguments", "inline_fragments", "name", "selection_set"]
  aliasName : Optional aliasName IsText (j.part? 0 "alias")
  arguments : Defaulted (arguments = ∅) (IsValueMap arguments) (j.part? 1 "arguments")
  inlineFragments : inlineFragments (j.part? 2 "inline_fragments")
  name : Defaulted (name = "") (IsText name) (j.part? 3 "name")
  selections : selections (j.part? 4 "selection_set")

/-- An inline fragment with these parts is written by the value. -/
structure WritesInlineFragment (directive : Option DirectiveDescription)
    (selections : Option Json → Prop) (typeCondition : Option String) (j : Json) : Prop where
  record : j.IsRecord ["directive", "selection_set", "type_condition"]
  directive : Optional directive DirectiveDescription.WrittenBy (j.part? 0 "directive")
  selections : selections (j.part? 1 "selection_set")
  typeCondition : Optional typeCondition IsText (j.part? 2 "type_condition")

/-- The description of a field of this name, with nothing else. -/
def FieldDescription.ofName (name : String) : FieldDescription := ⟨none, ∅, [], name, []⟩

/-- A part that lists nothing is left out or empty. -/
def ListsNothing : Option Json → Prop := Defaulted True (IsList (· = []))

mutual

/-- The field is written by the value. -/
def FieldDescription.WrittenBy : FieldDescription → Json → Prop
  | ⟨aliasName, arguments, inlineFragments, name, selections⟩ =>
    WritesField aliasName arguments
      (Defaulted (inlineFragments = []) (IsList (InlineFragmentsWrittenBy inlineFragments)))
      name (Defaulted (selections = []) (IsList (SelectionsWrittenBy selections)))
termination_by structural d => d

/-- The inline fragment is written by the value. -/
def InlineFragmentDescription.WrittenBy : InlineFragmentDescription → Json → Prop
  | ⟨directive, selections, typeCondition⟩ =>
    WritesInlineFragment directive (Required (IsList (SelectionsWrittenBy selections)))
      typeCondition
termination_by structural d => d

/-- The selection is written by the value.  A name alone is written as a text or as a field without
other parts, and such a field may be written as a text. -/
def SelectionDescription.WrittenBy : SelectionDescription → Json → Prop
  | .name name => fun j => IsText name j ∨ WritesField none ∅ ListsNothing name ListsNothing j
  | .field d => fun j => d.WrittenBy j ∨ ∃ name, d = .ofName name ∧ IsText name j
termination_by structural d => d

/-- The inline fragments are written by the values. -/
def InlineFragmentsWrittenBy : List InlineFragmentDescription → List Json → Prop
  | [] => fun js => js = []
  | d :: rest => fun js => ∃ j others, js = j :: others ∧ d.WrittenBy j ∧
      InlineFragmentsWrittenBy rest others
termination_by structural ds => ds

/-- The selections are written by the values. -/
def SelectionsWrittenBy : List SelectionDescription → List Json → Prop
  | [] => fun js => js = []
  | d :: rest => fun js => ∃ j others, js = j :: others ∧ d.WrittenBy j ∧
      SelectionsWrittenBy rest others
termination_by structural ds => ds

end

/-- A fragment with these parts is written by the value. -/
structure WritesFragment (directive : Option DirectiveDescription) (name : String)
    (selections : Option Json → Prop) (typeCondition : String) (j : Json) : Prop where
  record : j.IsRecord ["directive", "name", "selection_set", "type_condition"]
  directive : Optional directive DirectiveDescription.WrittenBy (j.part? 0 "directive")
  name : Required (IsText name) (j.part? 1 "name")
  selections : selections (j.part? 2 "selection_set")
  typeCondition : Required (IsText typeCondition) (j.part? 3 "type_condition")

/-- The fragment is written by the value. -/
def FragmentDescription.WrittenBy (d : FragmentDescription) : Json → Prop :=
  WritesFragment d.directive d.name (Required (IsList (SelectionsWrittenBy d.selections)))
    d.typeCondition

/-- The kind of operation is written by its keyword, as a text or as the only key of an object. -/
def OperationKind.WrittenBy (kind : OperationKind) (j : Json) : Prop :=
  IsText kind.keyword j ∨ j = .object [(kind.keyword, .null)]

/-- An operation with these parts is written by the value. -/
structure WritesOperation (kind : OperationKind) (name : String) (selections : Option Json → Prop)
    (declarations : OrderedMap String) (j : Json) : Prop where
  record : j.IsRecord ["kind", "name", "selection_set", "variables"]
  kind : Required kind.WrittenBy (j.part? 0 "kind")
  name : Defaulted (name = "") (IsText name) (j.part? 1 "name")
  selections : selections (j.part? 2 "selection_set")
  declarations : Defaulted (declarations = ∅) (IsMap IsText declarations) (j.part? 3 "variables")

/-- The operation is written by the value. -/
def OperationDescription.WrittenBy (d : OperationDescription) : Json → Prop :=
  WritesOperation d.kind d.name (Required (IsList (SelectionsWrittenBy d.selections)))
    d.declarations

/-- The definition is written by an object with its sort as the only key. -/
def DefinitionDescription.WrittenBy : DefinitionDescription → Json → Prop
  | .field d, j => ∃ inner, j = .object [("field", inner)] ∧ d.WrittenBy inner
  | .fragment d, j => ∃ inner, j = .object [("fragment", inner)] ∧ d.WrittenBy inner
  | .operation d, j => ∃ inner, j = .object [("operation", inner)] ∧ d.WrittenBy inner

/-- The request file is written by the value. -/
structure RequestFile.WrittenBy (file : RequestFile) (j : Json) : Prop where
  record : j.IsRecord ["definitions", "variables"]
  definitions : Required
    (IsList (List.Forall₂ DefinitionDescription.WrittenBy file.definitions))
    (j.part? 0 "definitions")
  variableValues : Optional file.variableValues IsValueMap (j.part? 1 "variables")

/-- The request file is written in the text, in which brackets are nested no more deeply than in a
request file. -/
def RequestFile.WrittenIn (file : RequestFile) (text : String) : Prop :=
  ∃ j, Json.parse text = some j ∧ j.depth ≤ depthLimit ∧ file.WrittenBy j

/-! ### Reading parts -/

theorem listsNothing_iff {part : Option Json} :
    withDefault? [] elements? part = some [] ↔ ListsNothing part := by
  rw [withDefault?_eq_some_iff elements?_eq_some_iff, ListsNothing, eq_self_iff_true]

/-- A directive is read from what writes it. -/
theorem DirectiveDescription.ofJson?_eq_some_iff {d : DirectiveDescription} {j : Json} :
    ofJson? j = some d ↔ d.WrittenBy j := by
  rw [ofJson?, parts?_bind_eq_some_iff]
  simp only [List.mapIdx_cons, List.mapIdx_nil, Nat.zero_add, Option.bind_eq_bind,
    Option.bind_eq_some_iff, required?_eq_some_iff text?_eq_some_iff,
    withDefault?_eq_some_iff map?_eq_some_iff]
  constructor
  · rintro ⟨hrecord, name, hname, arguments, harguments, h⟩
    cases h
    exact ⟨hrecord, hname, harguments⟩
  · intro h
    exact ⟨h.record, d.name, h.name, d.arguments, h.arguments, rfl⟩

theorem optional?_directive_eq_some_iff {d? : Option DirectiveDescription} {part : Option Json} :
    optional? DirectiveDescription.ofJson? part = some d? ↔
      Optional d? DirectiveDescription.WrittenBy part :=
  optional?_eq_some_iff DirectiveDescription.ofJson?_eq_some_iff rfl

theorem FieldDescription.WrittenBy.isRecord {d : FieldDescription} {j : Json}
    (h : d.WrittenBy j) :
    j.IsRecord ["alias", "arguments", "inline_fragments", "name", "selection_set"] := by
  cases d
  exact WritesField.record h

section Nested

variable {fuel : ℕ} {j : Json}

/-- The elements of the part, of which there are none if it is left out, are read one by one. -/
def ReadsList {α : Type} (read? : Json → Option α) (ds : List α) (part : Option Json) : Prop :=
  ∃ elements, withDefault? [] elements? part = some elements ∧ elements.mapM read? = some ds

/-- A field is read from what writes its parts, if its inline fragments and selections are read. -/
theorem fieldOfJson?_eq_some_iff {d : FieldDescription} :
    fieldOfJson? (fuel + 1) j = some d ↔
      WritesField d.aliasName d.arguments
        (ReadsList (inlineFragmentOfJson? fuel) d.inlineFragments) d.name
        (ReadsList (selectionOfJson? fuel) d.selections) j := by
  obtain ⟨aliasName, arguments, fs, name, ds⟩ := d
  rw [fieldOfJson?, parts?_bind_eq_some_iff]
  simp only [List.mapIdx_cons, List.mapIdx_nil, Nat.zero_add, Nat.reduceAdd, Option.bind_eq_bind,
    Option.bind_eq_some_iff, optional?_text?_eq_some_iff,
    withDefault?_eq_some_iff map?_eq_some_iff, withDefault?_eq_some_iff text?_eq_some_iff]
  constructor
  · rintro ⟨hrecord, _, halias, _, harguments, fragments, hfragments, _, hfs, _, hname, selections,
      hselections, _, hds, h⟩
    cases h
    exact ⟨hrecord, halias, harguments, ⟨fragments, hfragments, hfs⟩, hname,
      ⟨selections, hselections, hds⟩⟩
  · intro h
    obtain ⟨fragments, hfragments, hfs⟩ := h.inlineFragments
    obtain ⟨selections, hselections, hds⟩ := h.selections
    exact ⟨h.record, _, h.aliasName, _, h.arguments, fragments, hfragments, _, hfs, _, h.name,
      selections, hselections, _, hds, rfl⟩

/-- An inline fragment is read from what writes its parts, if its selections are read. -/
theorem inlineFragmentOfJson?_eq_some_iff {d : InlineFragmentDescription} :
    inlineFragmentOfJson? (fuel + 1) j = some d ↔
      WritesInlineFragment d.directive
        (fun part => ∃ elements, required? elements? part = some elements ∧
          elements.mapM (selectionOfJson? fuel) = some d.selections) d.typeCondition j := by
  obtain ⟨directive, ds, typeCondition⟩ := d
  rw [inlineFragmentOfJson?, parts?_bind_eq_some_iff]
  simp only [List.mapIdx_cons, List.mapIdx_nil, Nat.zero_add, Nat.reduceAdd, Option.bind_eq_bind,
    Option.bind_eq_some_iff, optional?_text?_eq_some_iff,
    optional?_directive_eq_some_iff]
  constructor
  · rintro ⟨hrecord, _, hdirective, selections, hselections, _, hds, _, htype, h⟩
    cases h
    exact ⟨hrecord, hdirective, ⟨selections, hselections, hds⟩, htype⟩
  · intro h
    obtain ⟨selections, hselections, hds⟩ := h.selections
    exact ⟨h.record, _, h.directive, selections, hselections, _, hds, _, h.typeCondition, rfl⟩

theorem selectionOfJson?_string (fuel : ℕ) (name : String) :
    selectionOfJson? fuel (.string name) = some (.name name) := by
  cases fuel <;> rfl

/-- A record is read as a field. -/
theorem selectionOfJson?_of_isRecord {keys : List String} (h : j.IsRecord keys) :
    selectionOfJson? (fuel + 1) j = (fieldOfJson? fuel j).map .field := by
  cases j with
  | array | object => rfl
  | _ => cases h

end Nested

theorem selectionsWrittenBy_iff {ds : List SelectionDescription} {js : List Json} :
    SelectionsWrittenBy ds js ↔ List.Forall₂ SelectionDescription.WrittenBy ds js := by
  induction ds generalizing js with
  | nil => rw [SelectionsWrittenBy, List.forall₂_nil_left_iff]
  | cons d rest ih =>
    rw [SelectionsWrittenBy, List.forall₂_cons_left_iff]
    constructor
    · rintro ⟨j, others, rfl, hfirst, hrest⟩
      exact ⟨j, others, hfirst, ih.mp hrest, rfl⟩
    · rintro ⟨j, others, hfirst, hrest, rfl⟩
      exact ⟨j, others, rfl, hfirst, ih.mpr hrest⟩

theorem inlineFragmentsWrittenBy_iff {ds : List InlineFragmentDescription} {js : List Json} :
    InlineFragmentsWrittenBy ds js ↔ List.Forall₂ InlineFragmentDescription.WrittenBy ds js := by
  induction ds generalizing js with
  | nil => rw [InlineFragmentsWrittenBy, List.forall₂_nil_left_iff]
  | cons d rest ih =>
    rw [InlineFragmentsWrittenBy, List.forall₂_cons_left_iff]
    constructor
    · rintro ⟨j, others, rfl, hfirst, hrest⟩
      exact ⟨j, others, hfirst, ih.mp hrest, rfl⟩
    · rintro ⟨j, others, hfirst, hrest, rfl⟩
      exact ⟨j, others, rfl, hfirst, ih.mpr hrest⟩

theorem eq_nil_iff_selectionsWrittenBy {ds : List SelectionDescription} :
    ds = [] ↔ SelectionsWrittenBy ds [] := by
  rw [selectionsWrittenBy_iff, List.forall₂_nil_right_iff]

theorem eq_nil_iff_inlineFragmentsWrittenBy {ds : List InlineFragmentDescription} :
    ds = [] ↔ InlineFragmentsWrittenBy ds [] := by
  rw [inlineFragmentsWrittenBy_iff, List.forall₂_nil_right_iff]

/-! ### Reading what builds alike -/

/-- The value is read as something of which the same is built as of the description. -/
def ReadsAlike {α β : Type} (read? : Json → Option α) (build : α → Recorded β) (d : α) (j : Json) :
    Prop :=
  ∃ d', read? j = some d' ∧ (build d').result = (build d).result

theorem ReadsAlike.mapM {α β : Type} {read? : Json → Option α} {build : α → Recorded β}
    {written : α → Json → Prop} {ds : List α} {js : List Json} (h : List.Forall₂ written ds js)
    (hread : ∀ d ∈ ds, ∀ j ∈ js, written d j → ReadsAlike read? build d j) :
    ∃ ds', js.mapM read? = some ds' ∧
      List.Forall₂ (fun d d' => (build d').result = (build d).result) ds ds' := by
  induction h with
  | nil => exact ⟨[], rfl, .nil⟩
  | @cons d j ds js hfirst _ ih =>
    obtain ⟨d', hd', hbuild⟩ := hread d (List.mem_cons_self ..) j (List.mem_cons_self ..) hfirst
    obtain ⟨ds', hds', hbuilds⟩ := ih fun d hd j hj =>
      hread d (List.mem_cons_of_mem _ hd) j (List.mem_cons_of_mem _ hj)
    refine ⟨d' :: ds', ?_, .cons hbuild hbuilds⟩
    rw [List.mapM_cons, hd', hds']
    rfl

theorem result_buildSelections_congr {ds ds' : List SelectionDescription}
    (h : List.Forall₂ (fun d d' => d'.build.result = d.build.result) ds ds') :
    (buildSelections ds').result = (buildSelections ds).result := by
  induction h with
  | nil => rfl
  | cons hfirst _ ih => simp only [buildSelections, Recorded.result_bind, hfirst, ih]

theorem result_buildInlineFragments_congr {ds ds' : List InlineFragmentDescription}
    (h : List.Forall₂ (fun d d' => d'.build.result = d.build.result) ds ds') :
    (buildInlineFragments ds').result = (buildInlineFragments ds).result := by
  induction h with
  | nil => rfl
  | cons hfirst _ ih => simp only [buildInlineFragments, Recorded.result_bind, hfirst, ih]

/-- A field without other parts is built as the name alone. -/
theorem FieldDescription.result_build_ofName (name : String) :
    (ofName name).build.result = .ok (Field.ofName name) := by
  have hbuild : Field.Draft.build ⟨none, ∅, [], name, []⟩ = .ok (Field.ofName name) :=
    Field.Draft.build_eq_ok_iff.mpr ⟨rfl, Field.isLawful_ofName name⟩
  rw [ofName, build]
  simp only [Recorded.result_bind, Recorded.result_lift, Recorded.result_noting]
  exact hbuild

/-- **However a field, an inline fragment or a selection is written**, it is read, and what is read
builds alike. -/
theorem readsAlike_nested :
    (∀ d : FieldDescription, ∀ {j fuel}, d.WrittenBy j → j.depth ≤ fuel →
        ReadsAlike (fieldOfJson? fuel) FieldDescription.build d j) ∧
      (∀ d : InlineFragmentDescription, ∀ {j fuel}, d.WrittenBy j → j.depth ≤ fuel →
        ReadsAlike (inlineFragmentOfJson? fuel) InlineFragmentDescription.build d j) ∧
      ∀ d : SelectionDescription, ∀ {j fuel}, d.WrittenBy j → j.depth < fuel →
        ReadsAlike (selectionOfJson? fuel) SelectionDescription.build d j := by
  apply FieldDescription.nestedInduction
  · rintro ⟨aliasName, arguments, inlineFragments, name, selections⟩ hselections hfragments j fuel
      h hfuel
    have hfield : WritesField aliasName arguments _ name _ j := h
    have hpos := hfield.record.depth_pos
    obtain ⟨fuel, rfl⟩ := Nat.exists_eq_add_one.mpr (by omega : 0 < fuel)
    have hdepth : ∀ {place key}, ∀ part ∈ j.part? place key, part.depth < fuel + 1 :=
      fun part hpart => Nat.lt_of_lt_of_le (depth_lt_of_part? hpart) hfuel
    obtain ⟨fs, hfs, hwrittenFs⟩ :=
      (exists_withDefault?_elements_iff eq_nil_iff_inlineFragmentsWrittenBy).mpr
        hfield.inlineFragments
    obtain ⟨ss, hss, hwrittenSs⟩ :=
      (exists_withDefault?_elements_iff eq_nil_iff_selectionsWrittenBy).mpr hfield.selections
    have hdepthFs := depth_lt_of_elements hdepth (.inl hfs)
    have hdepthSs := depth_lt_of_elements hdepth (.inl hss)
    obtain ⟨fs', hfs', hbuildFs⟩ := ReadsAlike.mapM (inlineFragmentsWrittenBy_iff.mp hwrittenFs)
      fun f hf j hj hwritten => hfragments f hf hwritten (Nat.le_of_lt (hdepthFs j hj))
    obtain ⟨ss', hss', hbuildSs⟩ := ReadsAlike.mapM (selectionsWrittenBy_iff.mp hwrittenSs)
      fun s hs j hj hwritten => hselections s hs hwritten (hdepthSs j hj)
    refine ⟨⟨aliasName, arguments, fs', name, ss'⟩, fieldOfJson?_eq_some_iff.mpr ?_, ?_⟩
    · exact ⟨hfield.record, hfield.aliasName, hfield.arguments, ⟨fs, hfs, hfs'⟩, hfield.name,
        ⟨ss, hss, hss'⟩⟩
    · simp only [FieldDescription.build, Recorded.result_bind,
        result_buildInlineFragments_congr hbuildFs, result_buildSelections_congr hbuildSs]
  · rintro ⟨directive, selections, typeCondition⟩ hselections j fuel h hfuel
    have hfragment : WritesInlineFragment directive _ typeCondition j := h
    have hpos := hfragment.record.depth_pos
    obtain ⟨fuel, rfl⟩ := Nat.exists_eq_add_one.mpr (by omega : 0 < fuel)
    obtain ⟨ss, hss, hwrittenSs⟩ := exists_required?_elements_iff.mpr hfragment.selections
    have hdepthSs := depth_lt_of_elements
      (fun part hpart => Nat.lt_of_lt_of_le (depth_lt_of_part? hpart) hfuel) (.inr hss)
    obtain ⟨ss', hss', hbuildSs⟩ := ReadsAlike.mapM (selectionsWrittenBy_iff.mp hwrittenSs)
      fun s hs j hj hwritten => hselections s hs hwritten (hdepthSs j hj)
    refine ⟨⟨directive, ss', typeCondition⟩, inlineFragmentOfJson?_eq_some_iff.mpr ?_, ?_⟩
    · exact ⟨hfragment.record, hfragment.directive, ⟨ss, hss, hss'⟩, hfragment.typeCondition⟩
    · simp only [InlineFragmentDescription.build, Recorded.result_bind,
        result_buildSelections_congr hbuildSs]
  · intro name j fuel h hfuel
    rw [SelectionDescription.WrittenBy] at h
    rcases h with htext | hfield
    · rw [show j = .string name from htext]
      exact ⟨_, selectionOfJson?_string fuel name, rfl⟩
    -- A record of the name is another selection, which is built alike.
    · have hpos := hfield.record.depth_pos
      obtain ⟨fuel, rfl⟩ := Nat.exists_eq_add_one.mpr (by omega : 0 < fuel)
      obtain ⟨fuel, rfl⟩ := Nat.exists_eq_add_one.mpr (by omega : 0 < fuel)
      have hread : fieldOfJson? (fuel + 1) j = some (.ofName name) :=
        fieldOfJson?_eq_some_iff.mpr ⟨hfield.record, hfield.aliasName, hfield.arguments,
          ⟨[], listsNothing_iff.mpr hfield.inlineFragments, rfl⟩, hfield.name,
          ⟨[], listsNothing_iff.mpr hfield.selections, rfl⟩⟩
      refine ⟨.field (.ofName name), ?_, FieldDescription.result_build_ofName name⟩
      rw [selectionOfJson?_of_isRecord hfield.record, hread]
      rfl
  · intro d hd j fuel h hfuel
    rw [SelectionDescription.WrittenBy] at h
    rcases h with hfield | ⟨name, rfl, htext⟩
    · obtain ⟨fuel, rfl⟩ := Nat.exists_eq_add_one.mpr (by omega : 0 < fuel)
      obtain ⟨d', hd', hbuild⟩ := hd hfield (Nat.le_of_lt_succ hfuel)
      refine ⟨.field d', ?_, hbuild⟩
      rw [selectionOfJson?_of_isRecord hfield.isRecord, hd']
      rfl
    · rw [show j = .string name from htext]
      exact ⟨_, selectionOfJson?_string fuel name, (FieldDescription.result_build_ofName name).symm⟩

/-! ### Definitions -/

/-- A fragment is read from what writes its parts, if its selections are read. -/
theorem FragmentDescription.ofJson?_eq_some_iff {d : FragmentDescription} {j : Json} :
    ofJson? j = some d ↔
      WritesFragment d.directive d.name
        (fun part => required? selectionsOfJson? part = some d.selections) d.typeCondition j := by
  rw [ofJson?, parts?_bind_eq_some_iff]
  simp only [List.mapIdx_cons, List.mapIdx_nil, Nat.zero_add, Nat.reduceAdd, Option.bind_eq_bind,
    Option.bind_eq_some_iff, optional?_directive_eq_some_iff,
    required?_eq_some_iff text?_eq_some_iff]
  constructor
  · rintro ⟨hrecord, _, hdirective, _, hname, _, hselections, _, htype, h⟩
    cases h
    exact ⟨hrecord, hdirective, hname, hselections, htype⟩
  · intro h
    exact ⟨h.record, _, h.directive, _, h.name, _, h.selections, _, h.typeCondition, rfl⟩

theorem OperationKind.ofKeyword?_eq_some_iff {kind : OperationKind} {keyword : String} :
    ofKeyword? keyword = some kind ↔ keyword = kind.keyword := by
  rw [ofKeyword?]
  cases kind with
  | query => split_ifs <;> simp_all [OperationKind.keyword]
  | mutation => split_ifs <;> simp_all [OperationKind.keyword]

theorem OperationKind.ofJson?_eq_some_iff {kind : OperationKind} {j : Json} :
    ofJson? j = some kind ↔ kind.WrittenBy j := by
  unfold ofJson?
  split <;> simp_all [WrittenBy, IsText, ofKeyword?_eq_some_iff]

/-- An operation is read from what writes its parts, if its selections are read. -/
theorem OperationDescription.ofJson?_eq_some_iff {d : OperationDescription} {j : Json} :
    ofJson? j = some d ↔
      WritesOperation d.kind d.name
        (fun part => required? selectionsOfJson? part = some d.selections) d.declarations j := by
  rw [ofJson?, parts?_bind_eq_some_iff]
  simp only [List.mapIdx_cons, List.mapIdx_nil, Nat.zero_add, Nat.reduceAdd, Option.bind_eq_bind,
    Option.bind_eq_some_iff, required?_eq_some_iff OperationKind.ofJson?_eq_some_iff,
    withDefault?_eq_some_iff text?_eq_some_iff,
    withDefault?_eq_some_iff (entries?_eq_some_iff text?_eq_some_iff)]
  constructor
  · rintro ⟨hrecord, _, hkind, _, hname, _, hselections, _, hdeclarations, h⟩
    cases h
    exact ⟨hrecord, hkind, hname, hselections, hdeclarations⟩
  · intro h
    exact ⟨h.record, _, h.kind, _, h.name, _, h.selections, _, h.declarations, rfl⟩

/-- However the selections of a definition are written, they are read and built alike. -/
theorem exists_selectionsOfJson? {ds : List SelectionDescription} {part : Option Json}
    (h : Required (IsList (SelectionsWrittenBy ds)) part) :
    ∃ ds', required? selectionsOfJson? part = some ds' ∧
      (buildSelections ds').result = (buildSelections ds).result := by
  cases part with
  | none => cases h
  | some j =>
    obtain ⟨elements, rfl, hwritten⟩ := h
    obtain ⟨k, hk, hdepth⟩ := depth_array_le_iff.mp (Nat.le_refl (array elements).depth)
    have hfuel : ∀ j ∈ elements, j.depth < descriptionFuel (array elements) := fun j hj => by
      have := hdepth j hj
      rw [descriptionFuel]
      omega
    obtain ⟨ds', hds', hbuild⟩ := ReadsAlike.mapM (selectionsWrittenBy_iff.mp hwritten)
      fun d _ j hj hd => readsAlike_nested.2.2 d hd (hfuel j hj)
    exact ⟨ds', hds', result_buildSelections_congr hbuild⟩

theorem FragmentDescription.readsAlike {d : FragmentDescription} {j : Json} (h : d.WrittenBy j) :
    ReadsAlike ofJson? build d j := by
  obtain ⟨ds, hds, hbuild⟩ := exists_selectionsOfJson? h.selections
  refine ⟨{ d with selections := ds }, ofJson?_eq_some_iff.mpr ?_, ?_⟩
  · exact ⟨h.record, h.directive, h.name, hds, h.typeCondition⟩
  · simp only [build, Recorded.result_bind, hbuild]

theorem OperationDescription.readsAlike {d : OperationDescription} {j : Json}
    (h : d.WrittenBy j) : ReadsAlike ofJson? build d j := by
  obtain ⟨ds, hds, hbuild⟩ := exists_selectionsOfJson? h.selections
  refine ⟨{ d with selections := ds }, ofJson?_eq_some_iff.mpr ?_, ?_⟩
  · exact ⟨h.record, h.kind, h.name, hds, h.declarations⟩
  · simp only [build, Recorded.result_bind, hbuild]

theorem DefinitionDescription.readsAlike {d : DefinitionDescription} {j : Json}
    (h : d.WrittenBy j) : ReadsAlike ofJson? build d j := by
  cases d with
  | field d =>
    obtain ⟨inner, rfl, h⟩ := h
    have hfuel : inner.depth ≤ descriptionFuel inner := by
      rw [descriptionFuel]
      omega
    obtain ⟨d', hd', hbuild⟩ := readsAlike_nested.1 d h hfuel
    refine ⟨.field d', ?_, ?_⟩
    · show (FieldDescription.ofJson? inner).map _ = _
      rw [FieldDescription.ofJson?, hd']
      rfl
    · simp only [build, Recorded.result_bind, hbuild]
  | fragment d =>
    obtain ⟨inner, rfl, h⟩ := h
    obtain ⟨d', hd', hbuild⟩ := FragmentDescription.readsAlike h
    refine ⟨.fragment d', ?_, ?_⟩
    · show (FragmentDescription.ofJson? inner).map _ = _
      rw [hd']
      rfl
    · simp only [build, Recorded.result_bind, hbuild]
  | operation d =>
    obtain ⟨inner, rfl, h⟩ := h
    obtain ⟨d', hd', hbuild⟩ := OperationDescription.readsAlike h
    refine ⟨.operation d', ?_, ?_⟩
    · show (OperationDescription.ofJson? inner).map _ = _
      rw [hd']
      rfl
    · simp only [build, Recorded.result_bind, hbuild]

theorem result_buildDefinitions_congr {ds ds' : List DefinitionDescription}
    (h : List.Forall₂ (fun d d' => d'.build.result = d.build.result) ds ds') :
    (buildDefinitions ds').result = (buildDefinitions ds).result := by
  induction h with
  | nil => rfl
  | cons hfirst _ ih => simp only [buildDefinitions, Recorded.result_bind, hfirst, ih]

/-! ### What is read is written there -/

theorem forall₂_of_mapM {α : Type} {read? : Json → Option α} {written : α → Json → Prop}
    {js : List Json} {ds : List α} (hread : ∀ {j d}, read? j = some d → written d j)
    (h : js.mapM read? = some ds) : List.Forall₂ written ds js :=
  ((mapM_eq_some_iff.mp h).imp fun _ _ => hread).flip

theorem writtenBy_of_selectionOfJson? {fuel : ℕ} {d : SelectionDescription} {j : Json}
    (hfield : ∀ {k j d}, fuel = k + 1 → fieldOfJson? k j = some d → d.WrittenBy j)
    (h : selectionOfJson? fuel j = some d) : d.WrittenBy j := by
  unfold selectionOfJson? at h
  split at h
  · cases h
    exact .inl rfl
  · cases h
  · obtain ⟨d', hd', rfl⟩ := Option.map_eq_some_iff.mp h
    exact .inl (hfield rfl hd')

/-- What the readers of fields, inline fragments and selections give, whatever their fuel, is
written by what they are given. -/
theorem writtenBy_nested (fuel : ℕ) :
    (∀ {j d}, fieldOfJson? fuel j = some d → d.WrittenBy j) ∧
      (∀ {j d}, inlineFragmentOfJson? fuel j = some d → d.WrittenBy j) ∧
      ∀ {j d}, selectionOfJson? fuel j = some d → d.WrittenBy j := by
  induction fuel with
  | zero =>
    refine ⟨?_, ?_, writtenBy_of_selectionOfJson? fun hk => absurd hk (by omega)⟩
    · intro j d h
      cases h
    · intro j d h
      cases h
  | succ fuel ih =>
    obtain ⟨hfield, hfragment, hselection⟩ := ih
    refine ⟨?_, ?_, writtenBy_of_selectionOfJson? fun hk => ?_⟩
    · intro j d h
      have h := fieldOfJson?_eq_some_iff.mp h
      obtain ⟨fragments, hfragments, hfs⟩ := h.inlineFragments
      obtain ⟨selections, hselections, hds⟩ := h.selections
      have hfs := inlineFragmentsWrittenBy_iff.mpr (forall₂_of_mapM hfragment hfs)
      have hds := selectionsWrittenBy_iff.mpr (forall₂_of_mapM hselection hds)
      cases d
      refine ⟨h.record, h.aliasName, h.arguments, ?_, h.name, ?_⟩
      · exact (exists_withDefault?_elements_iff eq_nil_iff_inlineFragmentsWrittenBy).mp
          ⟨fragments, hfragments, hfs⟩
      · exact (exists_withDefault?_elements_iff eq_nil_iff_selectionsWrittenBy).mp
          ⟨selections, hselections, hds⟩
    · intro j d h
      have h := inlineFragmentOfJson?_eq_some_iff.mp h
      obtain ⟨selections, hselections, hds⟩ := h.selections
      have hds := selectionsWrittenBy_iff.mpr (forall₂_of_mapM hselection hds)
      cases d
      exact ⟨h.record, h.directive, exists_required?_elements_iff.mp ⟨selections, hselections, hds⟩,
        h.typeCondition⟩
    · obtain rfl := Nat.succ.inj hk
      exact hfield

theorem required_of_selectionsOfJson? {ds : List SelectionDescription} {part : Option Json}
    (h : required? selectionsOfJson? part = some ds) :
    Required (IsList (SelectionsWrittenBy ds)) part := by
  cases part with
  | none => cases h
  | some j =>
    have hj : selectionsOfJson? j = some ds := h
    obtain ⟨elements, helements, hds⟩ := Option.bind_eq_some_iff.mp hj
    obtain ⟨elements, rfl, rfl⟩ := elements?_eq_some_iff.mp helements
    obtain ⟨-, -, hread⟩ := writtenBy_nested (descriptionFuel (array elements))
    exact ⟨_, rfl, selectionsWrittenBy_iff.mpr (forall₂_of_mapM hread hds)⟩

theorem DefinitionDescription.writtenBy_of_ofJson? {d : DefinitionDescription} {j : Json}
    (h : ofJson? j = some d) : d.WrittenBy j := by
  unfold ofJson? at h
  split at h
  · obtain ⟨d', hd', rfl⟩ := Option.map_eq_some_iff.mp h
    exact ⟨_, rfl, (writtenBy_nested _).1 hd'⟩
  · obtain ⟨d', hd', rfl⟩ := Option.map_eq_some_iff.mp h
    have h := FragmentDescription.ofJson?_eq_some_iff.mp hd'
    exact ⟨_, rfl, h.record, h.directive, h.name, required_of_selectionsOfJson? h.selections,
      h.typeCondition⟩
  · obtain ⟨d', hd', rfl⟩ := Option.map_eq_some_iff.mp h
    have h := OperationDescription.ofJson?_eq_some_iff.mp hd'
    exact ⟨_, rfl, h.record, h.kind, h.name, required_of_selectionsOfJson? h.selections,
      h.declarations⟩
  · cases h

/-! ### Request files -/

namespace RequestFile

/-- A request file is read from what writes its parts, if its definitions are read. -/
theorem ofJson?_eq_some_iff {file : RequestFile} {j : Json} :
    ofJson? j = some file ↔ j.IsRecord ["definitions", "variables"] ∧
      (∃ elements, required? elements? (j.part? 0 "definitions") = some elements ∧
        elements.mapM DefinitionDescription.ofJson? = some file.definitions) ∧
      Optional file.variableValues IsValueMap (j.part? 1 "variables") := by
  rw [ofJson?, parts?_bind_eq_some_iff]
  simp only [List.mapIdx_cons, List.mapIdx_nil, Nat.zero_add, Option.bind_eq_bind,
    Option.bind_eq_some_iff, optional?_map?_eq_some_iff]
  constructor
  · rintro ⟨hrecord, elements, helements, _, hds, _, hvalues, h⟩
    cases h
    exact ⟨hrecord, ⟨elements, helements, hds⟩, hvalues⟩
  · rintro ⟨hrecord, ⟨elements, helements, hds⟩, hvalues⟩
    exact ⟨hrecord, elements, helements, _, hds, _, hvalues, rfl⟩

theorem writtenBy_of_ofJson? {file : RequestFile} {j : Json} (h : ofJson? j = some file) :
    file.WrittenBy j := by
  obtain ⟨hrecord, ⟨elements, helements, hds⟩, hvalues⟩ := ofJson?_eq_some_iff.mp h
  have hds := forall₂_of_mapM DefinitionDescription.writtenBy_of_ofJson? hds
  exact ⟨hrecord, exists_required?_elements_iff.mp ⟨elements, helements, hds⟩, hvalues⟩

/-- **No way to write a request file is missing**: what is read from a text is written in it. -/
theorem writtenIn_of_parse? {file : RequestFile} {text : String} (h : parse? text = some file) :
    file.WrittenIn text := by
  obtain ⟨j, hj, h⟩ := Option.bind_eq_some_iff.mp h
  obtain ⟨hj, hdepth⟩ := parseWithin_eq_some_iff.mp hj
  exact ⟨j, hj, hdepth, writtenBy_of_ofJson? h⟩

/-- However a request file is written, it is read, and what is read builds alike and has the same
values of variables. -/
theorem exists_parse?_of_writtenIn {file : RequestFile} {text : String} (h : file.WrittenIn text) :
    ∃ read, parse? text = some read ∧ read.build.result = file.build.result ∧
      read.variableValues = file.variableValues := by
  obtain ⟨j, hj, hdepth, h⟩ := h
  obtain ⟨elements, helements, hwritten⟩ := exists_required?_elements_iff.mpr h.definitions
  obtain ⟨ds, hds, hbuild⟩ := ReadsAlike.mapM hwritten fun d _ j _ hd =>
    DefinitionDescription.readsAlike hd
  refine ⟨{ file with definitions := ds }, ?_, result_buildDefinitions_congr hbuild, rfl⟩
  rw [parse?, parseWithin_eq_some_iff.mpr ⟨hj, hdepth⟩]
  exact ofJson?_eq_some_iff.mpr ⟨h.record, ⟨elements, helements, hds⟩, h.variableValues⟩

/-- **All ways to write a request file mean the same.**  Two texts that write one file, each in its
own way at every record, are both read, and the definitions that are built of what is read are the
same, or else the error is; the values of variables are the same as well.  They are those of the
file. -/
theorem build_of_writtenIn {file : RequestFile} {text text' : String} (h : file.WrittenIn text)
    (h' : file.WrittenIn text') :
    ∃ read read', parse? text = some read ∧ parse? text' = some read' ∧
      (read.build.result = read'.build.result ∧ read.variableValues = read'.variableValues) ∧
        read.build.result = file.build.result ∧ read.variableValues = file.variableValues := by
  obtain ⟨read, hread, hbuild, hvalues⟩ := exists_parse?_of_writtenIn h
  obtain ⟨read', hread', hbuild', hvalues'⟩ := exists_parse?_of_writtenIn h'
  have hsame : read.build.result = read'.build.result ∧
      read.variableValues = read'.variableValues :=
    ⟨hbuild.trans hbuild'.symm, hvalues.trans hvalues'.symm⟩
  exact ⟨read, read', hread, hread', hsame, hbuild, hvalues⟩

/-- A query for one name, written with objects and what is needed, and with arrays and all there
is.  It is built. -/
theorem build_of_writtenIn_arrays :
    let file : RequestFile := ⟨[.operation ⟨.query, "", [.name "a"], ∅⟩], none⟩
    let text := "\x7b\"definitions\":[\x7b\"operation\":\x7b\"selection_set\":[\"a\"]," ++
      "\"kind\":\"query\"\x7d\x7d]\x7d"
    let text' := "[[\x7b\"operation\":[\x7b\"query\":null\x7d,\"\"," ++
      "[[null,\x7b\x7d,[],\"a\"]],\x7b\x7d]\x7d],null]"
    file.WrittenIn text ∧ file.WrittenIn text' ∧
      (∃ query, file.build.result = .ok [.operation query] ∧
        query.toGraphQL = "query \x7b a \x7d") ∧
      ∃ read read', parse? text = some read ∧ parse? text' = some read' ∧
        (read.build.result = read'.build.result ∧ read.variableValues = read'.variableValues) ∧
          read.build.result = file.build.result ∧ read.variableValues = file.variableValues := by
  intro file text text'
  have h : file.WrittenIn text := by
    let operation : Json := .object [("selection_set", .array [.string "a"]),
      ("kind", .string "query")]
    let j : Json := .object [("definitions", .array [.object [("operation", operation)]])]
    have hkept : j.IsKept := by
      repeat' first
        | exact List.forall_mem_nil _
        | refine List.forall_mem_cons.mpr ⟨?_, ?_⟩
        | constructor
    have htext : text = j.text := by decide +kernel
    have hselections : SelectionsWrittenBy [.name "a"] [.string "a"] :=
      ⟨_, _, rfl, .inl rfl, rfl⟩
    have hoperation : OperationDescription.WrittenBy ⟨.query, "", [.name "a"], ∅⟩ operation :=
      ⟨by decide, .inl rfl, rfl, ⟨_, rfl, hselections⟩, rfl⟩
    have hfile : file.WrittenBy j :=
      ⟨by decide, ⟨_, rfl, .cons ⟨_, rfl, hoperation⟩ .nil⟩, .inl rfl⟩
    exact ⟨j, htext ▸ Json.parse_text hkept, by decide, hfile⟩
  have h' : file.WrittenIn text' := by
    let field : Json := .array [.null, .object [], .array [], .string "a"]
    let operation : Json := .array [.object [("query", .null)], .string "", .array [field],
      .object []]
    let j : Json := .array [.array [.object [("operation", operation)]], .null]
    have hkept : j.IsKept := by
      repeat' first
        | exact List.forall_mem_nil _
        | refine List.forall_mem_cons.mpr ⟨?_, ?_⟩
        | constructor
    have htext : text' = j.text := by decide +kernel
    have hfield : WritesField none ∅ ListsNothing "a" ListsNothing field :=
      ⟨by decide, .inr rfl, ⟨[], [], rfl, rfl, .nil⟩, ⟨[], rfl, rfl⟩, rfl, trivial⟩
    have hselections : SelectionsWrittenBy [.name "a"] [field] :=
      ⟨_, _, rfl, .inr hfield, rfl⟩
    have hoperation : OperationDescription.WrittenBy ⟨.query, "", [.name "a"], ∅⟩ operation :=
      ⟨by decide, .inr rfl, rfl, ⟨_, rfl, hselections⟩, ⟨[], [], rfl, rfl, .nil⟩⟩
    have hfile : file.WrittenBy j :=
      ⟨by decide, ⟨_, rfl, .cons ⟨_, rfl, hoperation⟩ .nil⟩, .inr rfl⟩
    exact ⟨j, htext ▸ Json.parse_text hkept, by decide, hfile⟩
  have hbuilt : ∃ query, file.build.result = .ok [.operation query] ∧
      query.toGraphQL = "query \x7b a \x7d" := ⟨_, rfl, by decide +kernel⟩
  exact ⟨h, h', hbuilt, build_of_writtenIn h h'⟩

end RequestFile

end QueryComposer
