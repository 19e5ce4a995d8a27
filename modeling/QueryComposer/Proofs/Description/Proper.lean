import QueryComposer.Proofs.Description.Arguments
import QueryComposer.Proofs.Json.Reading

/-!
# The JSON values in a request file

A request file holds JSON values in two places, as the arguments of what it describes and as the
values of variables.  Whatever the text that it was read from, all of them are proper
(`RequestFile.isProper_of_parse?`).
-/

namespace QueryComposer

open Json

theorem Json.inherited_isKept : Inherited IsKept := by
  constructor
  · rintro elements ⟨⟩
    assumption
  · rintro members ⟨⟩
    assumption

theorem Json.isProper_of_mergedFrom {j : Json} (h : MergedFrom IsKept j) : j.IsProper := by
  obtain ⟨j', hj', rfl⟩ := h
  exact hj'.isProper_merged

namespace RequestFile

/-- The JSON values that the file holds are proper, arguments and values of variables alike. -/
structure IsProper (file : RequestFile) : Prop where
  arguments : ∀ entry ∈ file.argumentEntries, entry.2.IsProper
  variableValues : ∀ values ∈ file.variableValues, ∀ entry ∈ values.entries, entry.2.IsProper

theorem mergedFrom_variableValues {P : Json → Prop} (hP : Inherited P) {text : String}
    {file : RequestFile} (h : parse? text = some file)
    (htext : ∀ j, Json.parseWithin depthLimit text = some j → P j) :
    ∀ values ∈ file.variableValues, ∀ entry ∈ values.entries, MergedFrom P entry.2 := by
  obtain ⟨j, hj, h⟩ := Option.bind_eq_some_iff.mp h
  unfold ofJson? at h
  obtain ⟨parts, hparts, h⟩ := Option.bind_eq_some_iff.mp h
  split at h
  · rename_i definitions variableValues
    have hpart := hP.part (htext j hj) hparts
    obtain ⟨elements, -, h⟩ := Option.bind_eq_some_iff.mp h
    obtain ⟨ds, -, h⟩ := Option.bind_eq_some_iff.mp h
    obtain ⟨given, hgiven, h⟩ := Option.bind_eq_some_iff.mp h
    obtain rfl := Option.some.inj h
    intro values hvalues
    rcases of_optional? (hpart variableValues (by simp)) hgiven with rfl | ⟨m, v, rfl, hv, hm⟩
    · cases hvalues
    · obtain rfl := Option.some.inj hvalues
      exact hP.map hv hm
  · cases h

/-- **The JSON values of a file that was read are proper.** -/
theorem isProper_of_parse? {text : String} {file : RequestFile} (h : parse? text = some file) :
    file.IsProper where
  arguments entry hentry :=
    isProper_of_mergedFrom <| mergedFrom_of_parse? inherited_isKept h
      (fun _ hj => isKept_of_parseWithin hj) entry hentry
  variableValues values hvalues entry hentry :=
    isProper_of_mergedFrom <| mergedFrom_variableValues inherited_isKept h
      (fun _ hj => isKept_of_parseWithin hj) values hvalues entry hentry

end RequestFile

end QueryComposer
