import Mathlib.Data.Nat.Notation
import QueryComposer.Description.OfJson
import QueryComposer.Proofs.OrderedMap
import QueryComposer.Proofs.Result

/-!
# Arguments in a description

`argumentEntries` lists the arguments of a description at any depth, with their JSON values as they
stand.  In what is read from a request file each of these values is one that stands in the file,
with repeated keys merged: a property that passes from a JSON value to what it holds and that the
whole file has holds of each of them (`RequestFile.mergedFrom_of_parse?`).
-/

namespace QueryComposer

/-- The arguments of a directive that may be absent. -/
def directiveEntries : Option DirectiveDescription → List (String × Json)
  | none => []
  | some d => d.arguments.entries

mutual

/-- The arguments of the field and of all that is described below it. -/
def FieldDescription.argumentEntries : FieldDescription → List (String × Json)
  | ⟨_, arguments, inlineFragments, _, selections⟩ =>
    arguments.entries ++ selectionEntries selections ++ inlineFragmentEntries inlineFragments
termination_by structural d => d

def InlineFragmentDescription.argumentEntries : InlineFragmentDescription → List (String × Json)
  | ⟨directive, selections, _⟩ => selectionEntries selections ++ directiveEntries directive
termination_by structural d => d

def SelectionDescription.argumentEntries : SelectionDescription → List (String × Json)
  | .name _ => []
  | .field d => d.argumentEntries
termination_by structural d => d

def selectionEntries : List SelectionDescription → List (String × Json)
  | [] => []
  | d :: rest => d.argumentEntries ++ selectionEntries rest
termination_by structural ds => ds

def inlineFragmentEntries : List InlineFragmentDescription → List (String × Json)
  | [] => []
  | d :: rest => d.argumentEntries ++ inlineFragmentEntries rest
termination_by structural ds => ds

end

def DefinitionDescription.argumentEntries : DefinitionDescription → List (String × Json)
  | .field d => d.argumentEntries
  | .fragment d => selectionEntries d.selections ++ directiveEntries d.directive
  | .operation d => selectionEntries d.selections

def RequestFile.argumentEntries (file : RequestFile) : List (String × Json) :=
  file.definitions.flatMap DefinitionDescription.argumentEntries

theorem selectionEntries_eq_flatMap (ds : List SelectionDescription) :
    selectionEntries ds = ds.flatMap SelectionDescription.argumentEntries := by
  induction ds with
  | nil => rfl
  | cons d rest ih => rw [selectionEntries, ih, List.flatMap_cons]

theorem inlineFragmentEntries_eq_flatMap (ds : List InlineFragmentDescription) :
    inlineFragmentEntries ds = ds.flatMap InlineFragmentDescription.argumentEntries := by
  induction ds with
  | nil => rfl
  | cons d rest ih => rw [inlineFragmentEntries, ih, List.flatMap_cons]

/-! ### Parts of records -/

/-- The property passes from a JSON value to what it holds. -/
structure Json.Inherited (P : Json → Prop) : Prop where
  element {elements : List Json} : P (.array elements) → ∀ j ∈ elements, P j
  member {members : List (String × Json)} : P (.object members) → ∀ m ∈ members, P m.2

namespace Json

variable {P : Json → Prop} {given : Option Json}

/-- A part that is there has the property of the record. -/
theorem Inherited.part (hP : Inherited P) {keys : List String} {j : Json}
    {parts : List (Option Json)} (hj : P j) (h : j.parts? keys = some parts) :
    ∀ part ∈ parts, ∀ v ∈ part, P v := by
  intro part hpart v hv
  unfold parts? at h
  split at h
  · rename_i members
    dsimp only at h
    split at h
    · obtain rfl := Option.some.inj h
      -- An object gives for each key the member that stands under it.
      obtain ⟨key, -, rfl⟩ := List.mem_map.mp hpart
      exact hP.member hj _ (Entries.mem_of_find? hv)
    · cases h
  · rename_i elements
    split at h
    · obtain rfl := Option.some.inj h
      -- An array gives its elements, and nothing for the parts that are left out.
      rcases List.mem_append.mp hpart with hpart | hpart
      · obtain ⟨element, helement, rfl⟩ := List.mem_map.mp hpart
        obtain rfl := Option.some.inj hv
        exact hP.element hj _ helement
      · rw [List.eq_of_mem_replicate hpart] at hv
        cases hv
    · cases h
  · cases h

/-- The value is one with the property, merged. -/
def MergedFrom (P : Json → Prop) (v : Json) : Prop := ∃ j, P j ∧ v = j.merged

theorem Inherited.elements (hP : Inherited P) {j : Json} {elements : List Json} (hj : P j)
    (h : j.elements? = some elements) : ∀ element ∈ elements, P element := by
  unfold elements? at h
  split at h
  · obtain rfl := Option.some.inj h
    exact hP.element hj
  · cases h

theorem Inherited.map (hP : Inherited P) {j : Json} {m : OrderedMap Json} (hj : P j)
    (h : j.map? = some m) : ∀ entry ∈ m.entries, MergedFrom P entry.2 := by
  unfold map? entries? at h
  split at h
  · obtain ⟨entries, hentries, h⟩ := Option.bind_eq_some_iff.mp h
    obtain rfl := Option.some.inj h
    intro entry hentry
    obtain ⟨member, hmember, heq⟩ :=
      mem_of_mapM_eq_some hentries entry (Entries.mem_collect hentry)
    obtain rfl := Option.some.inj heq
    exact ⟨member.2, hP.member hj member hmember, rfl⟩
  · cases h

theorem exists_of_required? {α : Type} {read? : Json → Option α} {a : α}
    (hgiven : ∀ v ∈ given, P v) (h : required? read? given = some a) :
    ∃ v, P v ∧ read? v = some a := by
  obtain ⟨v, hv, ha⟩ := Option.bind_eq_some_iff.mp h
  exact ⟨v, hgiven v hv, ha⟩

theorem of_withDefault? {α : Type} {read? : Json → Option α} {default a : α}
    (hgiven : ∀ v ∈ given, P v) (h : withDefault? default read? given = some a) :
    a = default ∨ ∃ v, P v ∧ read? v = some a := by
  cases given with
  | none => exact .inl (Option.some.inj h).symm
  | some v => exact .inr ⟨v, hgiven v rfl, h⟩

theorem of_optional? {α : Type} {read? : Json → Option α} {a : Option α}
    (hgiven : ∀ v ∈ given, P v) (h : optional? read? given = some a) :
    a = none ∨ ∃ b v, a = some b ∧ P v ∧ read? v = some b := by
  unfold optional? at h
  split at h
  · exact .inl (Option.some.inj h).symm
  · exact .inl (Option.some.inj h).symm
  · obtain ⟨b, hb, rfl⟩ := Option.map_eq_some_iff.mp h
    exact .inr ⟨b, _, rfl, hgiven _ rfl, hb⟩

end Json

open Json

/-! ### Reading -/

/-- What is read from a value with the property has entries whose values are such values, merged. -/
def ReadsMerged {α : Type} (P : Json → Prop) (entriesOf : α → List (String × Json))
    (read? : Json → Option α) : Prop :=
  ∀ {j : Json} {a : α}, P j → read? j = some a → ∀ entry ∈ entriesOf a, MergedFrom P entry.2

section Reading

variable {P : Json → Prop} {given : Option Json}

theorem mergedFrom_of_nil : ∀ entry ∈ ([] : List (String × Json)), MergedFrom P entry.2 :=
  fun _ hentry => absurd hentry List.not_mem_nil

theorem ReadsMerged.mapM {α : Type} {entriesOf : α → List (String × Json)}
    {read? : Json → Option α} (hread : ReadsMerged P entriesOf read?) {elements : List Json}
    {as : List α} (helements : ∀ j ∈ elements, P j) (h : elements.mapM read? = some as) :
    ∀ entry ∈ as.flatMap entriesOf, MergedFrom P entry.2 := by
  intro entry hentry
  obtain ⟨a, ha, hentry⟩ := List.mem_flatMap.mp hentry
  obtain ⟨j, hj, hja⟩ := mem_of_mapM_eq_some h a ha
  exact hread (helements j hj) hja entry hentry

theorem mergedFrom_of_arguments (hP : Inherited P) {m : OrderedMap Json}
    (hgiven : ∀ v ∈ given, P v) (h : withDefault? ∅ map? given = some m) :
    ∀ entry ∈ m.entries, MergedFrom P entry.2 := by
  rcases of_withDefault? hgiven h with rfl | ⟨v, hv, hm⟩
  · exact mergedFrom_of_nil
  · exact hP.map hv hm

theorem forall_of_elements (hP : Inherited P) {elements : List Json} (hgiven : ∀ v ∈ given, P v)
    (h : withDefault? [] elements? given = some elements) : ∀ element ∈ elements, P element := by
  rcases of_withDefault? hgiven h with rfl | ⟨v, hv, helements⟩
  · exact fun _ helement => absurd helement List.not_mem_nil
  · exact hP.elements hv helements

theorem readsMerged_directive (hP : Inherited P) :
    ReadsMerged P (fun d => d.arguments.entries) DirectiveDescription.ofJson? := by
  intro j d hj h
  unfold DirectiveDescription.ofJson? at h
  obtain ⟨parts, hparts, h⟩ := Option.bind_eq_some_iff.mp h
  split at h
  · rename_i name arguments
    obtain ⟨name', -, h⟩ := Option.bind_eq_some_iff.mp h
    obtain ⟨m, hm, h⟩ := Option.bind_eq_some_iff.mp h
    obtain rfl := Option.some.inj h
    exact mergedFrom_of_arguments hP (hP.part hj hparts arguments (by simp)) hm
  · cases h

theorem mergedFrom_of_directive (hP : Inherited P) {directive : Option DirectiveDescription}
    (hgiven : ∀ v ∈ given, P v)
    (h : optional? DirectiveDescription.ofJson? given = some directive) :
    ∀ entry ∈ directiveEntries directive, MergedFrom P entry.2 := by
  rcases of_optional? hgiven h with rfl | ⟨d, v, rfl, hv, hd⟩
  · exact mergedFrom_of_nil
  · exact readsMerged_directive hP hv hd

/-! One more unit of fuel for each of the three readers that call each other. -/

variable {fuel : ℕ}

theorem readsMerged_field (hP : Inherited P)
    (hinlineFragment : ReadsMerged P InlineFragmentDescription.argumentEntries
      (inlineFragmentOfJson? fuel))
    (hselection : ReadsMerged P SelectionDescription.argumentEntries (selectionOfJson? fuel)) :
    ReadsMerged P FieldDescription.argumentEntries (fieldOfJson? (fuel + 1)) := by
  intro j d hj h
  unfold fieldOfJson? at h
  obtain ⟨parts, hparts, h⟩ := Option.bind_eq_some_iff.mp h
  split at h
  · rename_i aliasName arguments inlineFragments name selections
    have hpart := hP.part hj hparts
    -- The seven steps of the reader; the alias and the name hold no arguments.
    obtain ⟨aliasName', -, h⟩ := Option.bind_eq_some_iff.mp h
    obtain ⟨m, hm, h⟩ := Option.bind_eq_some_iff.mp h
    obtain ⟨written, hwritten, h⟩ := Option.bind_eq_some_iff.mp h
    obtain ⟨fs, hfs, h⟩ := Option.bind_eq_some_iff.mp h
    obtain ⟨name', -, h⟩ := Option.bind_eq_some_iff.mp h
    obtain ⟨elements, helements, h⟩ := Option.bind_eq_some_iff.mp h
    obtain ⟨ds, hds, h⟩ := Option.bind_eq_some_iff.mp h
    obtain rfl := Option.some.inj h
    have hwritten := forall_of_elements hP (hpart inlineFragments (by simp)) hwritten
    have helements := forall_of_elements hP (hpart selections (by simp)) helements
    intro entry hentry
    rw [FieldDescription.argumentEntries, selectionEntries_eq_flatMap,
      inlineFragmentEntries_eq_flatMap, List.mem_append, List.mem_append] at hentry
    rcases hentry with (hentry | hentry) | hentry
    · exact mergedFrom_of_arguments hP (hpart arguments (by simp)) hm entry hentry
    · exact hselection.mapM helements hds entry hentry
    · exact hinlineFragment.mapM hwritten hfs entry hentry
  · cases h

theorem readsMerged_inlineFragment (hP : Inherited P)
    (hselection : ReadsMerged P SelectionDescription.argumentEntries (selectionOfJson? fuel)) :
    ReadsMerged P InlineFragmentDescription.argumentEntries
      (inlineFragmentOfJson? (fuel + 1)) := by
  intro j d hj h
  unfold inlineFragmentOfJson? at h
  obtain ⟨parts, hparts, h⟩ := Option.bind_eq_some_iff.mp h
  split at h
  · rename_i directive selections typeCondition
    have hpart := hP.part hj hparts
    obtain ⟨directive', hdirective, h⟩ := Option.bind_eq_some_iff.mp h
    obtain ⟨elements, helements, h⟩ := Option.bind_eq_some_iff.mp h
    obtain ⟨ds, hds, h⟩ := Option.bind_eq_some_iff.mp h
    obtain ⟨typeCondition', -, h⟩ := Option.bind_eq_some_iff.mp h
    obtain rfl := Option.some.inj h
    obtain ⟨v, hv, helements⟩ := exists_of_required? (hpart selections (by simp)) helements
    intro entry hentry
    rw [InlineFragmentDescription.argumentEntries, selectionEntries_eq_flatMap,
      List.mem_append] at hentry
    rcases hentry with hentry | hentry
    · exact hselection.mapM (hP.elements hv helements) hds entry hentry
    · exact mergedFrom_of_directive hP (hpart directive (by simp)) hdirective entry hentry
  · cases h

theorem readsMerged_selection
    (hfield : ∀ k, fuel = k + 1 → ReadsMerged P FieldDescription.argumentEntries (fieldOfJson? k)) :
    ReadsMerged P SelectionDescription.argumentEntries (selectionOfJson? fuel) := by
  intro j d hj h
  unfold selectionOfJson? at h
  split at h
  · obtain rfl := Option.some.inj h
    exact mergedFrom_of_nil
  · cases h
  · rename_i k _
    obtain ⟨d', hd', rfl⟩ := Option.map_eq_some_iff.mp h
    exact hfield k rfl hj hd'

/-- Each of the three readers has the property, whatever its fuel. -/
theorem readsMerged_nested (hP : Inherited P) (fuel : ℕ) :
    ReadsMerged P FieldDescription.argumentEntries (fieldOfJson? fuel) ∧
      ReadsMerged P InlineFragmentDescription.argumentEntries (inlineFragmentOfJson? fuel) ∧
      ReadsMerged P SelectionDescription.argumentEntries (selectionOfJson? fuel) := by
  induction fuel with
  | zero =>
    refine ⟨?_, ?_, readsMerged_selection fun k hk => absurd hk (by omega)⟩
    · intro j d hj h
      cases h
    · intro j d hj h
      cases h
  | succ fuel ih =>
    obtain ⟨hfield, hinlineFragment, hselection⟩ := ih
    refine ⟨readsMerged_field hP hinlineFragment hselection,
      readsMerged_inlineFragment hP hselection, readsMerged_selection fun k hk => ?_⟩
    obtain rfl : fuel = k := by omega
    exact hfield

/-! ### Definitions -/

theorem mergedFrom_of_selections (hP : Inherited P) {ds : List SelectionDescription}
    (hgiven : ∀ v ∈ given, P v) (h : required? selectionsOfJson? given = some ds) :
    ∀ entry ∈ selectionEntries ds, MergedFrom P entry.2 := by
  obtain ⟨v, hv, h⟩ := exists_of_required? hgiven h
  obtain ⟨elements, helements, hds⟩ := Option.bind_eq_some_iff.mp h
  rw [selectionEntries_eq_flatMap]
  exact ReadsMerged.mapM (readsMerged_nested hP _).2.2 (hP.elements hv helements) hds

theorem readsMerged_fragment (hP : Inherited P) :
    ReadsMerged P (fun d => selectionEntries d.selections ++ directiveEntries d.directive)
      FragmentDescription.ofJson? := by
  intro j d hj h
  unfold FragmentDescription.ofJson? at h
  obtain ⟨parts, hparts, h⟩ := Option.bind_eq_some_iff.mp h
  split at h
  · rename_i directive name selections typeCondition
    have hpart := hP.part hj hparts
    obtain ⟨directive', hdirective, h⟩ := Option.bind_eq_some_iff.mp h
    obtain ⟨name', -, h⟩ := Option.bind_eq_some_iff.mp h
    obtain ⟨ds, hds, h⟩ := Option.bind_eq_some_iff.mp h
    obtain ⟨typeCondition', -, h⟩ := Option.bind_eq_some_iff.mp h
    obtain rfl := Option.some.inj h
    intro entry hentry
    rcases List.mem_append.mp hentry with hentry | hentry
    · exact mergedFrom_of_selections hP (hpart selections (by simp)) hds entry hentry
    · exact mergedFrom_of_directive hP (hpart directive (by simp)) hdirective entry hentry
  · cases h

theorem readsMerged_operation (hP : Inherited P) :
    ReadsMerged P (fun d => selectionEntries d.selections) OperationDescription.ofJson? := by
  intro j d hj h
  unfold OperationDescription.ofJson? at h
  obtain ⟨parts, hparts, h⟩ := Option.bind_eq_some_iff.mp h
  split at h
  · rename_i kind name selections declarations
    have hpart := hP.part hj hparts
    obtain ⟨kind', -, h⟩ := Option.bind_eq_some_iff.mp h
    obtain ⟨name', -, h⟩ := Option.bind_eq_some_iff.mp h
    obtain ⟨ds, hds, h⟩ := Option.bind_eq_some_iff.mp h
    obtain ⟨declarations', -, h⟩ := Option.bind_eq_some_iff.mp h
    obtain rfl := Option.some.inj h
    exact mergedFrom_of_selections hP (hpart selections (by simp)) hds
  · cases h

theorem readsMerged_definition (hP : Inherited P) :
    ReadsMerged P DefinitionDescription.argumentEntries DefinitionDescription.ofJson? := by
  intro j d hj h
  unfold DefinitionDescription.ofJson? at h
  split at h
  · obtain ⟨d', hd', rfl⟩ := Option.map_eq_some_iff.mp h
    exact (readsMerged_nested hP _).1 (hP.member hj _ (List.mem_cons_self ..)) hd'
  · obtain ⟨d', hd', rfl⟩ := Option.map_eq_some_iff.mp h
    exact readsMerged_fragment hP (hP.member hj _ (List.mem_cons_self ..)) hd'
  · obtain ⟨d', hd', rfl⟩ := Option.map_eq_some_iff.mp h
    exact readsMerged_operation hP (hP.member hj _ (List.mem_cons_self ..)) hd'
  · cases h

end Reading

namespace RequestFile

/-- **Every argument of a request file is a value that stands in the file**, merged: it has each
property that the whole file has and that passes to what a value holds. -/
theorem mergedFrom_of_parse? {P : Json → Prop} (hP : Inherited P) {text : String}
    {file : RequestFile} (h : parse? text = some file)
    (htext : ∀ j, Json.parseWithin depthLimit text = some j → P j) :
    ∀ entry ∈ file.argumentEntries, MergedFrom P entry.2 := by
  obtain ⟨j, hj, h⟩ := Option.bind_eq_some_iff.mp h
  unfold ofJson? at h
  obtain ⟨parts, hparts, h⟩ := Option.bind_eq_some_iff.mp h
  split at h
  · rename_i definitions variableValues
    have hpart := hP.part (htext j hj) hparts
    obtain ⟨elements, helements, h⟩ := Option.bind_eq_some_iff.mp h
    obtain ⟨ds, hds, h⟩ := Option.bind_eq_some_iff.mp h
    obtain ⟨variableValues', -, h⟩ := Option.bind_eq_some_iff.mp h
    obtain rfl := Option.some.inj h
    obtain ⟨v, hv, helements⟩ := exists_of_required? (hpart definitions (by simp)) helements
    exact ReadsMerged.mapM (readsMerged_definition hP) (hP.elements hv helements) hds
  · cases h

end RequestFile

end QueryComposer
