import QueryComposer.Proofs.Description.Proper
import QueryComposer.Proofs.Description.Violations

/-!
# Building reports the first violation

Building the definitions of a request file stops at the first error, and yet it tells exactly
whether something is wrong: it succeeds when the list of violations is empty and fails with its head
otherwise (`RequestFile.build_of_violations`).  The induction is on the nesting of fields, inline
fragments and selections; it carries that the fields built so far have the names that are described.
-/

namespace QueryComposer

/-! ### Recorded work -/

namespace Recorded

variable {α β : Type}

theorem result_bind (r : Recorded α) (next : α → Recorded β) :
    (r >>= next).result = r.result >>= fun a => (next a).result :=
  result_andThen r next

theorem result_lift (r : Except BuildError α) : (liftM r : Recorded α).result = r := rfl

end Recorded

/-! ### Fields, inline fragments and selections -/

/-- Induction over the selections and inline fragments of descriptions. -/
theorem FieldDescription.nestedInduction {P : FieldDescription → Prop}
    {Q : InlineFragmentDescription → Prop} {R : SelectionDescription → Prop}
    (field : ∀ d : FieldDescription, (∀ s ∈ d.selections, R s) → (∀ i ∈ d.inlineFragments, Q i) →
      P d)
    (inlineFragment : ∀ d : InlineFragmentDescription, (∀ s ∈ d.selections, R s) → Q d)
    (name : ∀ n, R (.name n)) (selected : ∀ d, P d → R (.field d)) :
    (∀ d, P d) ∧ (∀ d, Q d) ∧ ∀ s, R s := by
  have hfield : ∀ d, P d := fun d =>
    @FieldDescription.rec P Q R (fun fragments => ∀ i ∈ fragments, Q i)
      (fun selections => ∀ s ∈ selections, R s)
      (fun _ _ _ _ _ hfragments hselections => field _ hselections hfragments)
      (fun _ _ _ hselections => inlineFragment _ hselections) name selected
      (fun _ h => absurd h List.not_mem_nil)
      (fun _ _ hi hrest => List.forall_mem_cons.mpr ⟨hi, hrest⟩)
      (fun _ h => absurd h List.not_mem_nil)
      (fun _ _ hs hrest => List.forall_mem_cons.mpr ⟨hs, hrest⟩) d
  have hselection : ∀ s, R s := by
    intro s
    cases s with
    | name n => exact name n
    | field d => exact selected d (hfield d)
  exact ⟨hfield, fun d => inlineFragment d fun s _ => hselection s, hselection⟩

theorem settles_buildSelections {ds : List SelectionDescription}
    (hds : ∀ d ∈ ds, Settles (fun f => f.name = d.fieldName) d.build.result d.violations) :
    Settles (NamesKept ds) (buildSelections ds).result (selectionViolations ds) := by
  induction ds with
  | nil => exact .ok rfl
  | cons d rest ih =>
    obtain ⟨hd, hrest⟩ := List.forall_mem_cons.mp hds
    rw [buildSelections, selectionViolations, Recorded.result_bind]
    refine hd.bind fun f hf => ?_
    rw [Recorded.result_bind]
    refine (ih hrest).bind_ok fun fields hfields => ⟨f :: fields, rfl, ?_⟩
    unfold NamesKept at hfields ⊢
    rw [List.map_cons, List.map_cons, hf, hfields]

theorem settles_buildInlineFragments {ds : List InlineFragmentDescription}
    (hds : ∀ d ∈ ds, Settles (fun _ => True) d.build.result d.violations) :
    Settles (fun _ => True) (buildInlineFragments ds).result (inlineFragmentsViolations ds) := by
  induction ds with
  | nil => exact .ok trivial
  | cons d rest ih =>
    obtain ⟨hd, hrest⟩ := List.forall_mem_cons.mp hds
    rw [buildInlineFragments, inlineFragmentsViolations, Recorded.result_bind]
    refine hd.bind fun f _ => ?_
    rw [Recorded.result_bind]
    exact (ih hrest).bind_ok fun fs _ => ⟨f :: fs, rfl, trivial⟩

/-- Each of the arguments has a value as the reader gives it. -/
abbrev AllKept (entries : List (String × Json)) : Prop := ∀ entry ∈ entries, entry.2.IsKept

/-- A field settles its arguments, its selections, its inline fragments and then itself. -/
theorem FieldDescription.settles_build_of_parts {d : FieldDescription}
    (hentries : AllKept d.arguments.entries)
    (hselections : Settles (NamesKept d.selections) (buildSelections d.selections).result
      (selectionViolations d.selections))
    (hfragments : Settles (fun _ => True) (buildInlineFragments d.inlineFragments).result
      (inlineFragmentsViolations d.inlineFragments)) :
    Settles (fun f => f.name = d.name) d.build.result d.violations := by
  obtain ⟨aliasName, arguments, inlineFragments, name, selections⟩ := d
  rw [build, violations, List.append_assoc, List.append_assoc]
  rw [Recorded.result_bind, Recorded.result_lift]
  refine (settles_ofJsonMembers hentries).bind fun as has => ?_
  rw [Recorded.result_bind]
  refine hselections.bind fun fields hfields => ?_
  rw [Recorded.result_bind]
  refine hfragments.bind fun fragments _ => ?_
  rw [Recorded.result_noting]
  have hbuild := Field.Draft.settles_build (d := ⟨aliasName, as, fragments, name, fields⟩) hfields
    has.1 has.2
  refine hbuild.mono fun f hf => ?_
  rw [hf]
  rfl

theorem InlineFragmentDescription.settles_build_of_parts {d : InlineFragmentDescription}
    (hentries : AllKept (directiveEntries d.directive))
    (hselections : Settles (NamesKept d.selections) (buildSelections d.selections).result
      (selectionViolations d.selections)) :
    Settles (fun _ => True) d.build.result d.violations := by
  obtain ⟨directive, selections, typeCondition⟩ := d
  rw [build, violations, List.append_assoc]
  rw [Recorded.result_bind]
  refine hselections.bind fun fields hfields => ?_
  rw [Recorded.result_bind, Recorded.result_lift]
  refine (settles_buildDirective hentries).bind fun built hbuilt => ?_
  exact InlineFragment.Draft.settles_build hfields hbuilt

/-- **What is built of a field, an inline fragment or a selection** settles everything that is wrong
with it. -/
theorem settles_build_nested :
    (∀ d : FieldDescription, AllKept d.argumentEntries →
        Settles (fun f => f.name = d.name) d.build.result d.violations) ∧
      (∀ d : InlineFragmentDescription, AllKept d.argumentEntries →
        Settles (fun _ => True) d.build.result d.violations) ∧
      ∀ d : SelectionDescription, AllKept d.argumentEntries →
        Settles (fun f => f.name = d.fieldName) d.build.result d.violations := by
  apply FieldDescription.nestedInduction
  · rintro ⟨aliasName, arguments, inlineFragments, name, selections⟩ hselections hfragments h
    rw [FieldDescription.argumentEntries, selectionEntries_eq_flatMap,
      inlineFragmentEntries_eq_flatMap] at h
    simp only [AllKept, List.mem_append, List.mem_flatMap] at h
    apply FieldDescription.settles_build_of_parts
    · exact fun entry hentry => h entry (.inl (.inl hentry))
    · apply settles_buildSelections
      exact fun s hs => hselections s hs fun entry hentry => h entry (.inl (.inr ⟨s, hs, hentry⟩))
    · apply settles_buildInlineFragments
      exact fun i hi => hfragments i hi fun entry hentry => h entry (.inr ⟨i, hi, hentry⟩)
  · rintro ⟨directive, selections, typeCondition⟩ hselections h
    rw [InlineFragmentDescription.argumentEntries, selectionEntries_eq_flatMap] at h
    simp only [AllKept, List.mem_append, List.mem_flatMap] at h
    apply InlineFragmentDescription.settles_build_of_parts
    · exact fun entry hentry => h entry (.inr hentry)
    · apply settles_buildSelections
      exact fun s hs => hselections s hs fun entry hentry => h entry (.inl ⟨s, hs, hentry⟩)
  -- A name alone is built as it stands, and a field that is selected as the field.
  · intro n _
    exact .ok rfl
  · intro d hd h
    exact hd h

/-! ### Definitions -/

theorem settles_selections {ds : List SelectionDescription} (h : AllKept (selectionEntries ds)) :
    Settles (NamesKept ds) (buildSelections ds).result (selectionViolations ds) := by
  rw [selectionEntries_eq_flatMap] at h
  refine settles_buildSelections fun d hd => settles_build_nested.2.2 d fun e he => h e ?_
  exact List.mem_flatMap.mpr ⟨d, hd, he⟩

theorem FragmentDescription.settles_build {d : FragmentDescription}
    (h : AllKept (selectionEntries d.selections ++ directiveEntries d.directive)) :
    Settles (fun _ => True) d.build.result d.violations := by
  obtain ⟨hselections, hdirective⟩ := List.forall_mem_append.mp h
  rw [build, violations, List.append_assoc, List.append_assoc, List.append_assoc,
    Recorded.result_bind]
  refine (settles_selections hselections).bind fun fields hfields => ?_
  rw [Recorded.result_bind, Recorded.result_lift]
  refine (settles_buildDirective hdirective).bind fun built _ => ?_
  rw [Recorded.result_noting, ← List.append_assoc]
  exact Fragment.Draft.settles_build hfields

theorem OperationDescription.settles_build {d : OperationDescription}
    (h : AllKept (selectionEntries d.selections)) :
    Settles (fun _ => True) d.build.result d.violations := by
  rw [build, violations, List.append_assoc, List.append_assoc, Recorded.result_bind]
  refine (settles_selections h).bind fun fields hfields => ?_
  rw [Recorded.result_bind, Recorded.result_lift]
  refine (settles_buildDeclarations d.declarations.entries).bind fun declarations hbuilt => ?_
  rw [Recorded.result_noting, OrderedMap.keys, ← hbuilt.1]
  exact Operation.Draft.settles_build hfields hbuilt.2

theorem DefinitionDescription.settles_build {d : DefinitionDescription}
    (h : AllKept d.argumentEntries) : Settles (fun _ => True) d.build.result d.violations := by
  cases d with
  | field d =>
    rw [build, violations, Recorded.result_bind]
    exact (settles_build_nested.1 d h).bind_ok fun f _ => ⟨.field f, rfl, trivial⟩
  | fragment d =>
    rw [build, violations, Recorded.result_bind]
    exact (FragmentDescription.settles_build h).bind_ok fun f _ => ⟨.fragment f, rfl, trivial⟩
  | operation d =>
    rw [build, violations, Recorded.result_bind]
    exact (OperationDescription.settles_build h).bind_ok fun o _ => ⟨.operation o, rfl, trivial⟩

theorem settles_buildDefinitions {ds : List DefinitionDescription}
    (h : ∀ d ∈ ds, AllKept d.argumentEntries) :
    Settles (fun _ => True) (buildDefinitions ds).result
      (ds.flatMap DefinitionDescription.violations) := by
  induction ds with
  | nil => exact .ok trivial
  | cons d rest ih =>
    obtain ⟨hd, hrest⟩ := List.forall_mem_cons.mp h
    rw [buildDefinitions, List.flatMap_cons, Recorded.result_bind]
    refine (DefinitionDescription.settles_build hd).bind fun definition _ => ?_
    rw [Recorded.result_bind]
    exact (ih hrest).bind_ok fun definitions _ => ⟨definition :: definitions, rfl, trivial⟩

/-! ### Request files -/

namespace RequestFile

theorem allKept_of_parse? {text : String} {file : RequestFile} (h : parse? text = some file) :
    AllKept file.argumentEntries :=
  fun entry hentry => ((isProper_of_parse? h).arguments entry hentry).isKept

/-- **Building reports the first thing that is wrong.**  For a request file that was read, the
definitions are built exactly when the list of all violations is empty; otherwise the error is the
first of them. -/
theorem build_of_violations {text : String} {file : RequestFile} (h : parse? text = some file) :
    ((∃ definitions, file.build.result = .ok definitions) ↔ file.violations = []) ∧
      ∀ e, file.build.result = .error e ↔ file.violations.head? = some e := by
  have hkept : ∀ d ∈ file.definitions, AllKept d.argumentEntries := fun d hd entry hentry =>
    allKept_of_parse? h entry (List.mem_flatMap.mpr ⟨d, hd, hentry⟩)
  have hsettles : Settles (fun _ => True) file.build.result file.violations :=
    settles_buildDefinitions hkept
  exact ⟨hsettles.eq_ok_iff, fun e => hsettles.eq_error_iff⟩

/-- An unnamed field with an alias and with `null` for an argument breaks three rules, and the
`null` is reported. -/
theorem build_of_violations_root :
    let field := "\x7b\"alias\":\"a\",\"arguments\":\x7b\"x\":null\x7d\x7d"
    let text := "\x7b\"definitions\":[\x7b\"field\":" ++ field ++ "\x7d]\x7d"
    ∃ file, parse? text = some file ∧
      file.violations = [.unsupportedValue "x" .null, .structuralViolation (.aliasedRootField "a"),
        .structuralViolation .rootFieldWithArguments] ∧
      file.build.result = .error (.unsupportedValue "x" .null) := by
  intro field text
  have hread : (parse? text).map violations = some [.unsupportedValue "x" .null,
      .structuralViolation (.aliasedRootField "a"),
      .structuralViolation .rootFieldWithArguments] := by
    decide +kernel
  obtain ⟨file, hfile, hviolations⟩ := Option.map_eq_some_iff.mp hread
  refine ⟨file, hfile, hviolations, ?_⟩
  rw [(build_of_violations hfile).2, hviolations]
  rfl

end RequestFile

end QueryComposer
