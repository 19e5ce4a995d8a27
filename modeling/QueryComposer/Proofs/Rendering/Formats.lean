import Mathlib.Data.Finset.Max
import QueryComposer.Proofs.Description.Proper
import QueryComposer.Proofs.Description.FirstViolation
import QueryComposer.Proofs.Json.RoundTrip
import QueryComposer.Render.Report

/-!
# Text and payload of a request file

A request file is rendered as text or as the payload of a request.  The two formats build the same
definitions and part only when these are written, so both fail together; the payload, read as JSON,
carries the text character for character and the name of a lone operation
(`RequestFile.formatsAgree`).

The payload carries the values of variables as the file has them.  Adding the same values to the
request one by one files them under bare names, which comes to the same exactly when no name in the
file has a dollar sign (`RequestFile.variables_of_payload`).
-/

namespace QueryComposer

open Json

/-! ### Payloads -/

namespace Request

/-- The members of the payload. -/
def members (r : Request) : List (String × Json) :=
  (r.operationName.map fun name => ("operationName", Json.string name)).toList ++
    ("query", .string r.query) ::
      (r.variableValues.map fun values => ("variables", Json.object values.entries)).toList

theorem toJson_eq (r : Request) : r.toJson = .object r.members := by
  obtain ⟨name, query, values⟩ := r
  cases name <;> cases values <;> rfl

theorem nodup_keys_members (r : Request) : (Entries.keys r.members).Nodup := by
  obtain ⟨name, query, values⟩ := r
  cases name <;> cases values <;> simp [members, Entries.keys]

theorem find?_operationName (r : Request) :
    Entries.find? "operationName" r.members = r.operationName.map .string := by
  obtain ⟨name, query, values⟩ := r
  cases name <;> cases values <;> simp [members, Entries.find?]

theorem find?_query (r : Request) : Entries.find? "query" r.members = some (.string r.query) := by
  obtain ⟨name, query, values⟩ := r
  cases name <;> simp [members, Entries.find?]

theorem find?_variables (r : Request) :
    Entries.find? "variables" r.members = r.variableValues.map fun m => .object m.entries := by
  obtain ⟨name, query, values⟩ := r
  cases name <;> cases values <;> simp [members, Entries.find?]

/-- **The payload is read back member by member**, if the numbers among the values of the variables
are such as JSON keeps. -/
theorem parse_text {r : Request}
    (h : ∀ values ∈ r.variableValues, ∀ entry ∈ values.entries, entry.2.IsKept) :
    Json.parse r.text = some (.object r.members) := by
  have hkept : ∀ m ∈ r.members, m.2.IsKept := by
    intro m hm
    rcases List.mem_append.mp hm with hname | hm
    · obtain ⟨name, -, rfl⟩ := Option.map_eq_some_iff.mp (Option.mem_toList.mp hname)
      exact .string name
    · rcases List.mem_cons.mp hm with rfl | hvalues
      · exact .string r.query
      · obtain ⟨values, hmem, rfl⟩ := Option.map_eq_some_iff.mp (Option.mem_toList.mp hvalues)
        exact .object (h values hmem)
  rw [text, toJson_eq]
  exact Json.parse_text (.object hkept)

end Request

/-! ### What the formats have in common -/

/-- The name to send along with a request file: the file describes a single definition, which is an
operation with a name. -/
def RequestFile.operationName? (file : RequestFile) : Option String :=
  match file.definitions with
  | [.operation d] => if d.name = "" then none else some d.name
  | _ => none

/-- The payload is the text of a JSON object whose member `query` is the text and whose member
`operationName` is the name, and is missing when there is none. -/
def Carries (payload query : String) (name : Option String) : Prop :=
  ∃ members, Json.parse payload = some (.object members) ∧ (Entries.keys members).Nodup ∧
    Entries.find? "query" members = some (.string query) ∧
      Entries.find? "operationName" members = name.map .string

/-- A lone definition has the name that its description gives. -/
theorem DefinitionDescription.operationName?_of_build {d : DefinitionDescription}
    {definition : Definition} (h : d.build.result = .ok definition) :
    definition.operationName? = RequestFile.operationName? ⟨[d], none⟩ := by
  cases d with
  | field d =>
    rw [build, Recorded.result_bind] at h
    obtain ⟨f, -, h⟩ := bind_eq_ok_iff.mp h
    obtain rfl := Except.ok.inj h
    rfl
  | fragment d =>
    rw [build, Recorded.result_bind] at h
    obtain ⟨f, -, h⟩ := bind_eq_ok_iff.mp h
    obtain rfl := Except.ok.inj h
    rfl
  | operation d =>
    rw [build, Recorded.result_bind] at h
    obtain ⟨o, ho, h⟩ := bind_eq_ok_iff.mp h
    obtain rfl := Except.ok.inj h
    have hname : o.name = d.name := by
      rw [OperationDescription.build, Recorded.result_bind] at ho
      obtain ⟨fields, -, ho⟩ := bind_eq_ok_iff.mp ho
      rw [Recorded.result_bind, Recorded.result_lift] at ho
      obtain ⟨built, -, ho⟩ := bind_eq_ok_iff.mp ho
      rw [Recorded.result_noting] at ho
      obtain ⟨-, m, -, rfl⟩ := Operation.Draft.build_eq_ok_iff.mp ho
      rfl
    rw [Definition.operationName?, hname]
    rfl

/-- The request for what is built of a file has the name that the file gives. -/
theorem operationName_of_build {file : RequestFile} {definitions : List Definition}
    (h : file.build.result = .ok definitions) :
    (Render.definitionsRequest definitions).operationName = file.operationName? := by
  obtain ⟨descriptions, values⟩ := file
  rw [RequestFile.build] at h
  -- Only a lone definition has a request of its own.
  cases descriptions with
  | nil =>
    obtain rfl := Except.ok.inj h
    rfl
  | cons d rest =>
    rw [buildDefinitions, Recorded.result_bind] at h
    obtain ⟨definition, hdefinition, h⟩ := bind_eq_ok_iff.mp h
    rw [Recorded.result_bind] at h
    obtain ⟨others, hothers, h⟩ := bind_eq_ok_iff.mp h
    obtain rfl := Except.ok.inj h
    cases rest with
    | nil =>
      obtain rfl := Except.ok.inj hothers
      exact DefinitionDescription.operationName?_of_build hdefinition
    | cons d' rest =>
      rw [buildDefinitions, Recorded.result_bind] at hothers
      obtain ⟨definition', -, hothers⟩ := bind_eq_ok_iff.mp hothers
      rw [Recorded.result_bind] at hothers
      obtain ⟨others', -, hothers⟩ := bind_eq_ok_iff.mp hothers
      obtain rfl := Except.ok.inj hothers
      cases d <;> rfl

namespace Render

theorem query_definitionsRequest (definitions : List Definition) :
    (definitionsRequest definitions).query = definitionsText definitions := by
  unfold definitionsRequest definitionsText
  split <;> rfl

/-- The definitions are built first, and the format matters only to the writing. -/
theorem result_renderFile (format : OutputFormat) (file : RequestFile) :
    (renderFile format file).result =
      file.build.result.map (write format file.variableValues) := by
  rw [renderFile, Recorded.result_bind]
  cases file.build.result <;> rfl

theorem renderFile_eq_error_iff {format : OutputFormat} {file : RequestFile} {e : BuildError} :
    (renderFile format file).result = .error e ↔ file.build.result = .error e := by
  rw [result_renderFile]
  cases file.build.result <;> simp [Except.map]

theorem renderFile_eq_ok_iff {format : OutputFormat} {file : RequestFile} {written : String} :
    (renderFile format file).result = .ok written ↔
      ∃ definitions, file.build.result = .ok definitions ∧
        write format file.variableValues definitions = written := by
  rw [result_renderFile]
  exact map_eq_ok_iff

end Render

namespace RequestFile

open Render

/-- The payload of a file is read back member by member. -/
theorem parse_write_json {file : RequestFile} (hfile : file.IsProper)
    (definitions : List Definition) :
    Json.parse (write .json file.variableValues definitions) =
      some (.object ({ definitionsRequest definitions with
        variableValues := file.variableValues } : Request).members) :=
  Request.parse_text fun values hvalues entry hentry =>
    (hfile.variableValues values hvalues entry hentry).isKept

/-- What is written as a payload carries the text and the name that the file gives. -/
theorem carries_of_build {file : RequestFile} (hfile : file.IsProper)
    {definitions : List Definition} (h : file.build.result = .ok definitions) :
    Carries (write .json file.variableValues definitions) (definitionsText definitions)
      file.operationName? := by
  refine ⟨_, parse_write_json hfile definitions, Request.nodup_keys_members _, ?_, ?_⟩
  · rw [Request.find?_query, ← query_definitionsRequest]
  · rw [Request.find?_operationName, ← operationName_of_build h]

/-- The two formats agree on a file. -/
structure FormatsAgree (file : RequestFile) : Prop where
  /-- They fail together, with the same error. -/
  error_iff : ∀ e, (renderFile .text file).result = .error e ↔
    (renderFile .json file).result = .error e
  /-- Where they succeed, the payload carries the text and the name that the file gives. -/
  carries : ∀ query payload, (renderFile .text file).result = .ok query →
    (renderFile .json file).result = .ok payload → Carries payload query file.operationName?
  /-- The text does not depend on the values of variables. -/
  text_eq : ∀ values, (renderFile .text { file with variableValues := values }).result =
    (renderFile .text file).result
  /-- Nor does what the payload carries. -/
  carries_values : ∀ values payload payload',
    ({ file with variableValues := values } : RequestFile).IsProper →
      (renderFile .json file).result = .ok payload →
        (renderFile .json { file with variableValues := values }).result = .ok payload' →
          ∃ query, Carries payload query file.operationName? ∧
            Carries payload' query file.operationName?

/-- **Text and payload agree.** -/
theorem formatsAgree {file : RequestFile} (hfile : file.IsProper) : file.FormatsAgree where
  error_iff e := by rw [renderFile_eq_error_iff, renderFile_eq_error_iff]
  carries query payload hquery hpayload := by
    obtain ⟨definitions, hbuild, rfl⟩ := renderFile_eq_ok_iff.mp hquery
    obtain ⟨definitions', hbuild', rfl⟩ := renderFile_eq_ok_iff.mp hpayload
    obtain rfl := Except.ok.inj (hbuild.symm.trans hbuild')
    exact carries_of_build hfile hbuild
  text_eq values := by
    rw [result_renderFile, result_renderFile]
    rfl
  carries_values values payload payload' hfile' hpayload hpayload' := by
    obtain ⟨definitions, hbuild, rfl⟩ := renderFile_eq_ok_iff.mp hpayload
    obtain ⟨definitions', hbuild', rfl⟩ := renderFile_eq_ok_iff.mp hpayload'
    obtain rfl := Except.ok.inj (hbuild.symm.trans hbuild')
    exact ⟨definitionsText definitions, carries_of_build hfile hbuild,
      carries_of_build hfile' hbuild'⟩

/-- A name with a quote, a line end and a control in it is escaped and recovered. -/
theorem formatsAgree_escaped :
    let operation := "\x7b\"kind\":\"query\",\"name\":\"A\"," ++
      "\"selection_set\":[\"a\\\"\\n\\u0001é\"]\x7d"
    let text := "\x7b\"definitions\":[\x7b\"operation\":" ++ operation ++
      "\x7d],\"variables\":\x7b\"$x\":1\x7d\x7d"
    ∃ file payload, parse? text = some file ∧
      (renderFile .text file).result = .ok "query A \x7b a\"\n\x01é \x7d" ∧
      (renderFile .json file).result = .ok payload ∧
      Carries payload "query A \x7b a\"\n\x01é \x7d" (some "A") := by
  intro operation text
  have hread : ((parse? text).map fun file =>
      ((renderFile .text file).result.toOption, (renderFile .json file).result.toOption.isSome,
        file.operationName?)) =
      some (some "query A \x7b a\"\n\x01é \x7d", true, some "A") := by
    decide +kernel
  obtain ⟨file, hfile, hresults⟩ := Option.map_eq_some_iff.mp hread
  obtain ⟨htext, hresults⟩ := Prod.mk.inj hresults
  obtain ⟨hpayload, hname⟩ := Prod.mk.inj hresults
  obtain ⟨payload, hpayload⟩ := Option.isSome_iff_exists.mp hpayload
  have htext := toOption_eq_some_iff.mp htext
  have hpayload := toOption_eq_some_iff.mp hpayload
  have hcarries := (formatsAgree (isProper_of_parse? hfile)).carries _ payload htext hpayload
  exact ⟨file, payload, hfile, htext, hpayload, hname ▸ hcarries⟩

end RequestFile

/-! ### Values of variables -/

/-- A name is bare, or it is its bare name behind a dollar sign. -/
theorem VariableName.bare_cases (name : String) :
    VariableName.bare name = name ∨ name = "$" ++ VariableName.bare name := by
  unfold VariableName.bare
  split
  · rename_i rest h
    have htext : (String.ofList rest).toList = rest := String.toList_ofList
    refine .inr (String.toList_inj.mp ?_)
    rw [h, String.toList_append, htext]
    rfl
  · exact .inl rfl

namespace Request

/-- Send the values for all the variables, one after the other. -/
def addVariables (r : Request) (entries : List (String × Json)) : Request :=
  entries.foldl (fun r (name, value) => r.addVariable name value) r

/-- The entries with each value under the bare name of its variable. -/
def bareEntries (entries : List (String × Json)) : List (String × Json) :=
  entries.map fun entry => (VariableName.bare entry.1, entry.2)

theorem variableValues_addVariables_of_some {r : Request} {values : OrderedMap Json}
    (h : r.variableValues = some values) (entries : List (String × Json)) :
    (r.addVariables entries).variableValues = some (values.insertMany (bareEntries entries)) := by
  induction entries generalizing r values with
  | nil => exact h
  | cons entry rest ih =>
    obtain ⟨name, value⟩ := entry
    have hfirst : (r.addVariable name value).variableValues =
        some (values.insert (VariableName.bare name) value) := by rw [addVariable, h]; rfl
    exact ih hfirst

/-- Values that are added one by one are filed under their bare names, the last for each name being
kept. -/
theorem variableValues_addVariables {r : Request} (h : r.variableValues = none)
    {entries : List (String × Json)} (hne : entries ≠ []) :
    (r.addVariables entries).variableValues = some (.ofList (bareEntries entries)) := by
  obtain ⟨⟨name, value⟩, rest, rfl⟩ := List.exists_cons_of_ne_nil hne
  have hfirst : (r.addVariable name value).variableValues =
      some ((∅ : OrderedMap Json).insert (VariableName.bare name) value) := by
    rw [addVariable, h]
    rfl
  exact variableValues_addVariables_of_some hfirst rest

end Request

/-- No name has a dollar sign to drop. -/
def NamesBare (values : OrderedMap Json) : Prop :=
  ∀ name ∈ values.keys, VariableName.bare name = name

theorem ofList_bareEntries {values : OrderedMap Json} (h : NamesBare values) :
    OrderedMap.ofList (Request.bareEntries values.entries) = values := by
  obtain ⟨entries, hnodup⟩ := values
  have hentries : Request.bareEntries entries = entries := by
    refine (List.map_congr_left fun entry hentry => ?_).trans (List.map_id _)
    rw [h entry.1 (List.mem_map_of_mem hentry)]
    rfl
  have hcollect : Entries.collect (Request.bareEntries entries) = entries := by
    rw [hentries, Entries.collect_of_nodup hnodup]
  show OrderedMap.mk (Entries.collect (Request.bareEntries entries)) _ = _
  simp only [hcollect]

/-- Of the names with a dollar sign, a longest one is not the bare name of another. -/
theorem exists_get?_bareEntries_eq_none {values : OrderedMap Json} (h : ¬NamesBare values) :
    ∃ name ∈ values.keys,
      (OrderedMap.ofList (Request.bareEntries values.entries)).get? name = none := by
  let dollared := values.keys.toFinset.filter fun name => VariableName.bare name ≠ name
  have hdollared : dollared.Nonempty := by
    unfold NamesBare at h
    push Not at h
    obtain ⟨name, hname, hbare⟩ := h
    exact ⟨name, Finset.mem_filter.mpr ⟨List.mem_toFinset.mpr hname, hbare⟩⟩
  obtain ⟨name, hname, hlongest⟩ := Finset.exists_max_image dollared String.length hdollared
  obtain ⟨hmem, hbare⟩ := Finset.mem_filter.mp hname
  refine ⟨name, List.mem_toFinset.mp hmem, ?_⟩
  show Entries.find? name (Entries.collect (Request.bareEntries values.entries)) = none
  rw [Entries.find?_collect]
  refine Entries.last?_eq_none fun hkey => ?_
  obtain ⟨_, hentry, hname'⟩ := List.mem_map.mp hkey
  obtain ⟨⟨other, value⟩, hother, rfl⟩ := List.mem_map.mp hentry
  obtain rfl : VariableName.bare other = name := hname'
  rcases VariableName.bare_cases other with hcase | hcase
  · exact hbare (by rw [hcase, hcase])
  · -- The other name has one dollar sign more, so it is longer.
    have hlength : (VariableName.bare other).length < other.length := by
      have := congrArg String.length hcase
      rw [String.length_append] at this
      have hsign : "$".length = 1 := rfl
      omega
    have hotherMem : other ∈ dollared := by
      refine Finset.mem_filter.mpr ⟨List.mem_toFinset.mpr (List.mem_map_of_mem hother), ?_⟩
      intro heq
      rw [heq] at hlength
      exact lt_irrefl _ hlength
    exact absurd (hlongest other hotherMem) (not_le.mpr hlength)

namespace RequestFile

open Render

/-- **The payload carries the values of variables under the names that the file has.**  To add the
values to the request one by one comes to the same if all the names are bare; if not, one of the
names in the payload is missing from what is added. -/
theorem variables_of_payload {file : RequestFile} (hfile : file.IsProper)
    {values : OrderedMap Json} (hvalues : file.variableValues = some values)
    (hne : values.entries ≠ []) {payload : String}
    (h : (renderFile .json file).result = .ok payload) :
    ∃ definitions members added, file.build.result = .ok definitions ∧
      Json.parse payload = some (.object members) ∧
      Entries.find? "variables" members = some (.object values.entries) ∧
      ((definitionsRequest definitions).addVariables values.entries).variableValues = some added ∧
      (NamesBare values → added = values) ∧
      (¬NamesBare values → ∃ name ∈ values.keys, added.get? name = none) := by
  obtain ⟨definitions, hbuild, rfl⟩ := renderFile_eq_ok_iff.mp h
  have hnone : (definitionsRequest definitions).variableValues = none := by
    unfold definitionsRequest
    split <;> rfl
  refine ⟨definitions, _, .ofList (Request.bareEntries values.entries), hbuild,
    parse_write_json hfile definitions, ?_, Request.variableValues_addVariables hnone hne,
    ofList_bareEntries, exists_get?_bareEntries_eq_none⟩
  rw [Request.find?_variables]
  show file.variableValues.map _ = _
  rw [hvalues]
  rfl

/-- A value filed under `$id` is sent under that name. -/
theorem variables_of_payload_dollar :
    let operation := "\x7b\"kind\":\"query\",\"variables\":\x7b\"id\":\"Int\"\x7d," ++
      "\"selection_set\":[\"x\"]\x7d"
    let text := "\x7b\"definitions\":[\x7b\"operation\":" ++ operation ++
      "\x7d],\"variables\":\x7b\"$id\":1\x7d\x7d"
    let payload := "\x7b\"query\":\"query($id: Int) \x7b x \x7d\"," ++
      "\"variables\":\x7b\"$id\":1\x7d\x7d"
    ∃ file values definitions members added, parse? text = some file ∧
      file.variableValues = some values ∧ values.entries ≠ [] ∧ ¬NamesBare values ∧
      (renderFile .json file).result = .ok payload ∧ file.build.result = .ok definitions ∧
      Json.parse payload = some (.object members) ∧
      Entries.find? "variables" members = some (.object values.entries) ∧
      ((definitionsRequest definitions).addVariables values.entries).variableValues = some added ∧
      ∃ name ∈ values.keys, added.get? name = none := by
  intro operation text payload
  have hread : ((parse? text).map fun file =>
      ((renderFile .json file).result.toOption, file.variableValues.map OrderedMap.keys)) =
      some (some payload, some ["$id"]) := by
    decide +kernel
  obtain ⟨file, hfile, hresults⟩ := Option.map_eq_some_iff.mp hread
  obtain ⟨hpayload, hkeys⟩ := Prod.mk.inj hresults
  obtain ⟨values, hvalues, hnames⟩ := Option.map_eq_some_iff.mp hkeys
  have hne : values.entries ≠ [] := fun hnil => by
    rw [OrderedMap.keys, hnil] at hnames
    cases hnames
  have hnotBare : ¬NamesBare values := fun hbare =>
    absurd (hbare "$id" (hnames ▸ List.mem_singleton_self _)) (by decide)
  have hresult := toOption_eq_some_iff.mp hpayload
  obtain ⟨definitions, members, added, hbuild, hparse, hfind, hadded, -, hmissing⟩ :=
    variables_of_payload (isProper_of_parse? hfile) hvalues hne hresult
  exact ⟨file, values, definitions, members, added, hfile, hvalues, hne, hnotBare, hresult, hbuild,
    hparse, hfind, hadded, hmissing hnotBare⟩

end RequestFile

end QueryComposer
