import QueryComposer.Proofs.Description.FirstViolation
import QueryComposer.Proofs.InputType
import QueryComposer.Proofs.Nodes.Declarations

/-!
# Names of types

The variables of an operation are described by the names of their types.  Such a name is read by
undoing what a type is written as, up to the white space around it; the first one that is not read
is reported with the name of the variable (`buildDeclarations_eq_error_iff`), because nothing else
in an operation is refused for a value (`Operation.Draft.build_ne_unsupportedValue`).

Main statement: `InputType.readsExactly`.
-/

namespace QueryComposer

/-! ### Types of variables -/

/-- An operation that declares its variables with types is refused for its shape alone. -/
theorem Operation.Draft.build_ne_unsupportedValue {d : Draft}
    (h : ∀ declaration ∈ d.declarations, ∃ t, declaration.2 = .placeholder t) (path : String)
    (found : Finding) : d.build ≠ .error (.unsupportedValue path found) := by
  intro he
  by_cases hnamed : AllNamed d.selections
  · obtain ⟨i, name, value, -, hget, herror⟩ :=
      (declaresVariables_of_allNamed hnamed).error_iff.mp he
    obtain ⟨t, rfl⟩ : ∃ t, value = .placeholder t := h _ (List.mem_of_getElem? hget)
    cases herror
  · have hany : d.selections.any Field.isRoot = true := by
      rwa [← any_isRoot_eq_false_iff, Bool.not_eq_false] at hnamed
    rw [build, checkSelections, if_pos hany] at he
    cases he

theorem unknownTypes_eq_filterMap (declarations : List (String × String)) :
    unknownTypes declarations = declarations.filterMap fun declaration =>
      (InputType.finding? declaration.2).map (.unsupportedValue declaration.1) := by
  rw [unknownTypes, List.filterMap_eq_flatMap_toList]
  congr
  funext declaration
  obtain ⟨name, typeName⟩ := declaration
  dsimp only
  rw [InputType.finding?]
  cases InputType.ofName? (Text.trim typeName) with
  | none => rfl
  | some t => rfl

/-- The first type that is unknown is reported under the name of its variable. -/
theorem buildDeclarations_eq_error_iff {declarations : List (String × String)} {path : String}
    {found : Finding} :
    buildDeclarations declarations = .error (.unsupportedValue path found) ↔
      ∃ earlier typeName later, declarations = earlier ++ (path, typeName) :: later ∧
        (∀ declaration ∈ earlier, ∃ t, InputType.parse declaration.2 = .ok t) ∧
        InputType.parse typeName = .error (.unsupportedValue "" found) := by
  rw [(settles_buildDeclarations declarations).eq_error_iff, unknownTypes_eq_filterMap,
    List.head?_filterMap, List.findSome?_eq_some_iff]
  simp only [Option.map_eq_none_iff, InputType.finding?_eq_none_iff, Option.map_eq_some_iff]
  constructor
  · rintro ⟨earlier, ⟨name, typeName⟩, later, hsplit, ⟨found', hfound, herror⟩, hearlier⟩
    obtain ⟨rfl, rfl⟩ := BuildError.unsupportedValue.inj herror
    have hparse := InputType.parse_eq_error_iff.mpr ⟨found', hfound, rfl⟩
    exact ⟨earlier, typeName, later, hsplit, hearlier, hparse⟩
  · rintro ⟨earlier, typeName, later, hsplit, hearlier, hparse⟩
    obtain ⟨found', hfound, herror⟩ := InputType.parse_eq_error_iff.mp hparse
    obtain ⟨-, rfl⟩ := BuildError.unsupportedValue.inj herror
    exact ⟨earlier, (path, typeName), later, hsplit, ⟨found, hfound, rfl⟩, hearlier⟩

/-- Where the selections can be built, a value that is not supported is the type of a variable. -/
theorem OperationDescription.build_eq_unsupportedValue_iff {d : OperationDescription}
    {fields : List Field} (hfields : (buildSelections d.selections).result = .ok fields)
    {path : String} {found : Finding} :
    d.build.result = .error (.unsupportedValue path found) ↔
      buildDeclarations d.declarations.entries = .error (.unsupportedValue path found) := by
  have hbuild : d.build.result = buildDeclarations d.declarations.entries >>= fun declarations =>
      Operation.Draft.build ⟨d.kind, d.name, fields, declarations⟩ := by
    rw [build, Recorded.result_bind, hfields]
    show Recorded.result (_ >>= _) = _
    simp only [Recorded.result_bind, Recorded.result_lift, Recorded.result_noting]
  rw [hbuild]
  refine bind_eq_error_iff fun declarations hdeclarations => ?_
  have htypes := ((settles_buildDeclarations d.declarations.entries).of_eq_ok hdeclarations).2
  exact Operation.Draft.build_ne_unsupportedValue htypes path found

/-! ### Exact reading -/

/-- How the text is read as a type. -/
structure InputType.ReadsExactly (s : String) : Prop where
  /-- A type is read if the text without the white space at its ends is what the type is written
  as. -/
  ok_iff : ∀ {t}, parse s = .ok t ↔ Text.TrimsTo s t.toGraphQL
  /-- Otherwise the text without this white space is reported as unknown, and there is no path. -/
  error_iff : ∀ {e}, parse s = .error e ↔ (∀ t : InputType, ¬Text.TrimsTo s t.toGraphQL) ∧
    ∃ name, Text.TrimsTo s name ∧ e = .unsupportedValue "" (.unknownType name)

/-- The operation is refused for the first variable whose type cannot be read, under the name of the
variable as it is described and with what was found in reading the type. -/
def OperationDescription.ReportsTypes (d : OperationDescription) : Prop :=
  ∀ {path found}, d.build.result = .error (.unsupportedValue path found) ↔
    ∃ earlier typeName later, d.declarations.entries = earlier ++ (path, typeName) :: later ∧
      (∀ declaration ∈ earlier, ∃ t, InputType.parse declaration.2 = .ok t) ∧
      InputType.parse typeName = .error (.unsupportedValue "" found)

/-- **A type is read from what it is written as, up to white space at the ends, and from nothing
else.**  An operation whose selections can be built reports the first type that cannot be read under
the name of the variable, with what was found. -/
theorem InputType.readsExactly :
    (∀ s, ReadsExactly s) ∧ ∀ (d : OperationDescription) (fields : List Field),
      (buildSelections d.selections).result = .ok fields → d.ReportsTypes := by
  refine ⟨fun s => ⟨parse_eq_ok_iff, fun {e} => ?_⟩, fun d fields hfields => ?_⟩
  · simp only [parse_eq_error_iff, finding?_eq_some_iff, and_assoc, exists_and_left,
      exists_eq_left, exists_eq_left', ← Text.trim_eq_iff, Ne, parse_eq_ok_iff]
  · intro path found
    rw [OperationDescription.build_eq_unsupportedValue_iff hfields]
    exact buildDeclarations_eq_error_iff

/-- Among what is white space is the ideographic space, and not the zero-width space. -/
theorem InputType.readsExactly_spaced :
    parse "\u3000Int!\u00A0" = .ok ⟨.int, true⟩ ∧
      parse " \u200BInt" = .error (.unsupportedValue "" (.unknownType "\u200BInt")) ∧
      (OperationDescription.build ⟨.query, "", [.name "x"],
        ⟨[("$id", " Int "), ("n", "Int !")], by decide⟩⟩).result =
          .error (.unsupportedValue "n" (.unknownType "Int !")) := by
  obtain ⟨hreads, hreports⟩ := readsExactly
  have hunknown : ∀ s name, Text.trim s = name → ofName? name = none →
      parse s = .error (.unsupportedValue "" (.unknownType name)) := by
    intro s name htrim hnone
    refine (hreads s).error_iff.mpr ⟨fun t ht => ?_, name, Text.trim_eq_iff.mp htrim, rfl⟩
    have hname : name = t.toGraphQL := htrim.symm.trans ht.trim_eq
    rw [ofName?_eq_some_iff.mpr hname] at hnone
    cases hnone
  have hint : parse " Int " = .ok ⟨.int, false⟩ :=
    (hreads _).ok_iff.mpr (Text.trim_eq_iff.mp (by decide))
  have hfields : (buildSelections [.name "x"]).result = .ok [⟨none, ∅, [], "x", []⟩] := rfl
  refine ⟨(hreads _).ok_iff.mpr (Text.trim_eq_iff.mp (by decide)),
    hunknown _ _ (by decide) (by decide), (hreports _ _ hfields).mpr ?_⟩
  refine ⟨[("$id", " Int ")], "Int !", [], rfl, ?_, hunknown _ _ (by decide) (by decide)⟩
  exact List.forall_mem_singleton.mpr ⟨_, hint⟩

end QueryComposer
