import QueryComposer.Proofs.Rendering.Formats

/-!
# Payloads of composed requests

A request is made of a text, a definition or an operation, and then values of variables are added
one after the other.  Its payload, read as JSON, is an object of at most three members in a fixed
order, from which the name, the text and the values are recovered exactly
(`Request.parse_text_addVariables`).  Each member that is missing in the request is missing there.

A JSON value that can be added is proper: its whole numbers have 64 bits, its other numbers are
finite, and no object in it has a key twice.
-/

namespace QueryComposer.Request

open Json

/-- The request has just been made, and no value of a variable has been added. -/
inductive IsNew : Request → Prop where
  | ofQuery (query : String) : IsNew (ofQuery query)
  | ofDefinition (d : Definition) : IsNew (ofDefinition d)
  | ofOperation (o : Operation) : IsNew (ofOperation o)

theorem IsNew.variableValues_eq_none {r : Request} (h : r.IsNew) : r.variableValues = none := by
  cases h with
  | ofQuery query => rfl
  | ofDefinition d => rfl
  | ofOperation o => rfl

/-! ### Adding values -/

/-- Values leave the name and the text of the request as they are. -/
theorem members_addVariables (r : Request) (sent : List (String × Json)) :
    (r.addVariables sent).operationName = r.operationName ∧
      (r.addVariables sent).query = r.query := by
  induction sent generalizing r with
  | nil => exact ⟨rfl, rfl⟩
  | cons entry rest ih => exact ih (r.addVariable entry.1 entry.2)

/-- The values are filed under bare names, the last for each name being kept; without any there is
no map of values. -/
theorem IsNew.entries_addVariables {r : Request} (h : r.IsNew) (sent : List (String × Json)) :
    (r.addVariables sent).variableValues.map OrderedMap.entries =
      if sent = [] then none else some (Entries.collect (bareEntries sent)) := by
  by_cases hsent : sent = []
  · subst hsent
    show r.variableValues.map _ = _
    rw [h.variableValues_eq_none, if_pos rfl]
    rfl
  · rw [variableValues_addVariables h.variableValues_eq_none hsent, if_neg hsent]
    rfl

/-- What is filed under bare names are the values that were added. -/
theorem isProper_collect_bareEntries {sent : List (String × Json)}
    (hsent : ∀ entry ∈ sent, entry.2.IsProper) :
    (object (Entries.collect (bareEntries sent))).IsProper := by
  refine .object (fun m hm => ?_) (Entries.nodup_keys_collect _)
  obtain ⟨entry, hentry, rfl⟩ := List.mem_map.mp (Entries.mem_collect hm)
  exact hsent entry hentry

/-! ### Reading the payload -/

/-- The members of a payload are proper if the values of the variables are. -/
theorem isProper_members {r : Request}
    (h : ∀ values ∈ r.variableValues, (object values.entries).IsProper) :
    (object r.members).IsProper := by
  refine .object (fun m hm => ?_) r.nodup_keys_members
  rcases List.mem_append.mp hm with hname | hm
  · obtain ⟨name, -, rfl⟩ := Option.map_eq_some_iff.mp (Option.mem_toList.mp hname)
    exact .string name
  · rcases List.mem_cons.mp hm with rfl | hvalues
    · exact .string r.query
    · obtain ⟨values, hmem, rfl⟩ := Option.map_eq_some_iff.mp (Option.mem_toList.mp hvalues)
      exact h values hmem

/-- **The payload of a request is read back as the request.**  Of a request that is made of a text,
a definition or an operation and is then given any values, the payload is a JSON text whose value is
an object of the name, if there is one, the text, and the values, if any were given, in this order.
No key is repeated in it at any depth, and the values are those that were given, filed in order
under bare names of which the last value counts. -/
theorem parse_text_addVariables {r : Request} (hr : r.IsNew) {sent : List (String × Json)}
    (hsent : ∀ entry ∈ sent, entry.2.IsProper) :
    let composed := r.addVariables sent
    let name := composed.operationName.map fun name => ("operationName", string name)
    let values := composed.variableValues.map fun m => ("variables", object m.entries)
    let members := name.toList ++ ("query", string composed.query) :: values.toList
    Json.parse composed.text = some (object members) ∧ (object members).IsProper ∧
      composed.operationName = r.operationName ∧ composed.query = r.query ∧
      composed.variableValues.map OrderedMap.entries =
        if sent = [] then none else some (Entries.collect (bareEntries sent)) := by
  intro composed name values members
  have hentries := hr.entries_addVariables sent
  have hproper : (object composed.members).IsProper := by
    refine isProper_members fun values hvalues => ?_
    have hcollect : values.entries = Entries.collect (bareEntries sent) := by
      rw [show composed.variableValues = some values from hvalues, Option.map_some] at hentries
      split at hentries
      · cases hentries
      · exact Option.some.inj hentries
    rw [hcollect]
    exact isProper_collect_bareEntries hsent
  have hparse : Json.parse composed.text = some (object composed.members) := by
    rw [text, toJson_eq]
    exact Json.parse_text hproper.isKept
  obtain ⟨hname, hquery⟩ := members_addVariables r sent
  exact ⟨hparse, hproper, hname, hquery, hentries⟩

/-- A named query with a quote, a line end and a control in its text, given a value under `$id`, one
that is nested and keeps the greatest whole number, and another one under `id`. -/
theorem parse_text_addVariables_escaped :
    let o : Operation := ⟨.query, "A", [Field.ofName "a\"\n\x01é"], ∅⟩
    let nested : Json := .object [("ks", .array [.integer 18446744073709551615, .null, .array []]),
      ("\\", .object [])]
    let sent : List (String × Json) := [("$id", .bool true), ("x", nested), ("id", .integer (-1))]
    (ofOperation o).IsNew ∧ (∀ entry ∈ sent, entry.2.IsProper) ∧
      Json.parse ((ofOperation o).addVariables sent).text =
        some (.object [("operationName", .string "A"),
          ("query", .string "query A \x7b a\"\n\x01é \x7d"),
          ("variables", .object [("id", .integer (-1)), ("x", nested)])]) := by
  intro o nested sent
  have hnumber : (Json.integer 18446744073709551615).IsProper := .integer (by decide) (by decide)
  have hlist : ∀ j ∈ [Json.integer 18446744073709551615, .null, .array []], j.IsProper := by
    simpa using ⟨hnumber, .null, .array (by simp)⟩
  have hempty : (Json.object []).IsProper := .object (by simp) (by decide)
  have hnested : nested.IsProper := .object (by simpa using ⟨.array hlist, hempty⟩) (by decide)
  have hsent : ∀ entry ∈ sent, entry.2.IsProper := by
    simpa [sent] using ⟨.bool true, hnested, .integer (by decide) (by decide)⟩
  have hnew : (ofOperation o).IsNew := .ofOperation o
  exact ⟨hnew, hsent, (parse_text_addVariables hnew hsent).1⟩

end QueryComposer.Request
