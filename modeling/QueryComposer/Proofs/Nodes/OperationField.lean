import QueryComposer.Proofs.Nodes.Lawful
import QueryComposer.Proofs.Rendering.Compositional

/-!
# Operations that are selected as fields

The field of an operation selects what the operation selects, under its name.  What the operation is
written as, up to its declarations, is therefore its keyword and the field.  The two writers have to
agree on the space before the selections: an operation always has one, and a field has it only
behind a name (`selectionText_spaced`).  The field of an anonymous operation is a root field, so
that no draft takes it for a selection (`Field.TakenWhen`).

Main statement: `Field.ofOperation_reuses`.
-/

namespace QueryComposer

/-! ### Texts -/

/-- The operation without its declarations. -/
def Operation.undeclared (o : Operation) : Operation := { o with declarations := ∅ }

theorem Arguments.text_empty : (∅ : Arguments).text = "" := text_eq ∅

/-- The space before the braces goes away together with them. -/
theorem selectionText_spaced (texts : List String) :
    selectionText " \x7b " texts =
      if selectionText "\x7b " texts = "" then "" else " " ++ selectionText "\x7b " texts := by
  by_cases htexts : texts = []
  · simp [selectionText, htexts]
  · have hspace : " \x7b " = " " ++ "\x7b " := rfl
    have hne : selectionText "\x7b " texts ≠ "" := by
      simp [selectionText, htexts, String.append_eq_empty_iff]
    rw [if_neg hne, selectionText, selectionText, if_neg htexts, if_neg htexts, hspace]
    simp only [String.append_assoc]

namespace Operation

/-- What an operation selects, in braces behind a space. -/
def selectedText (o : Operation) : String :=
  selectionText " \x7b " (o.selections.map Field.toGraphQL)

theorem toGraphQL_undeclared (o : Operation) :
    o.undeclared.toGraphQL =
      o.kind.keyword ++ (if o.name = "" then "" else " " ++ o.name) ++ o.selectedText := by
  rw [toGraphQL_eq]
  show _ ++ (∅ : Arguments).text ++ _ = _
  rw [Arguments.text_empty, String.append_empty]
  rfl

end Operation

namespace Field

variable (o : Operation) (aliasName : Option String)

theorem toGraphQL_ofOperation_named (h : o.name ≠ "") :
    (ofOperation o aliasName).toGraphQL = aliasText aliasName ++ o.name ++ o.selectedText := by
  have htexts : (ofOperation o aliasName).selectedTexts = o.selections.map toGraphQL :=
    List.append_nil _
  have hhead : (ofOperation o aliasName).headText = aliasText aliasName ++ o.name := by
    simp only [headText, ofOperation, if_neg h, Arguments.text_empty, String.append_empty]
  rw [toGraphQL_eq, htexts, hhead, show (ofOperation o aliasName).name = o.name from rfl, if_neg h]
  rfl

theorem toGraphQL_ofOperation_anonymous (h : o.name = "") :
    (ofOperation o aliasName).toGraphQL =
      selectionText "\x7b " (o.selections.map toGraphQL) := by
  have htexts : (ofOperation o aliasName).selectedTexts = o.selections.map toGraphQL :=
    List.append_nil _
  have hname : (ofOperation o aliasName).name = "" := h
  rw [toGraphQL_eq, htexts, headText, if_pos hname, if_pos hname, String.empty_append]

/-- The text of the operation without declarations, by that of its field. -/
theorem toGraphQL_undeclared_eq :
    o.undeclared.toGraphQL = if (ofOperation o none).toGraphQL = "" then o.kind.keyword
      else o.kind.keyword ++ " " ++ (ofOperation o none).toGraphQL := by
  rw [Operation.toGraphQL_undeclared]
  by_cases h : o.name = ""
  · rw [toGraphQL_ofOperation_anonymous o none h, if_pos h, Operation.selectedText,
      selectionText_spaced, String.append_empty]
    split
    · rw [String.append_empty]
    · rw [String.append_assoc]
  · have hne : (ofOperation o none).toGraphQL ≠ "" := by
      simp [toGraphQL_ofOperation_named o none h, String.append_eq_empty_iff, h]
    have halias : aliasText none = "" := rfl
    rw [if_neg hne, if_neg h, toGraphQL_ofOperation_named o none h, halias, String.empty_append]
    simp only [String.append_assoc]

end Field

/-! ### Drafts -/

/-- Where a draft can be built, it can still be built with the field added exactly under the
condition, and what is built then selects the field after what was selected before. -/
structure Field.TakenWhen {δ ν : Type} (condition : Prop) (f : Field)
    (build : δ → Except BuildError ν) (add : δ → Field → δ) (selections : ν → List Field) :
    Prop where
  built_iff : ∀ {d n}, build d = .ok n → ((∃ n', build (add d f) = .ok n') ↔ condition)
  selections_eq : ∀ {d n n'}, build d = .ok n → build (add d f) = .ok n' →
    selections n' = selections n ++ [f]

/-- Drafts that are built with their selections, and can be built with any that are named if they
can be built at all, take the fields that have names. -/
theorem Field.TakenWhen.of_named {δ ν : Type} {f : Field} {build : δ → Except BuildError ν}
    {add : δ → Field → δ} {selections : ν → List Field} (part : δ → List Field)
    (hadd : ∀ d, part (add d f) = part d ++ [f])
    (hbuild : ∀ d n, build d = .ok n → selections n = part d ∧ AllNamed (part d))
    (hnamed : ∀ d n, build d = .ok n → AllNamed (part d ++ [f]) → ∃ n', build (add d f) = .ok n') :
    f.TakenWhen (f.name ≠ "") build add selections := by
  constructor
  case built_iff =>
    intro d n h
    constructor
    · rintro ⟨n', h'⟩
      have hall := (hbuild _ _ h').2
      rw [hadd] at hall
      exact hall f (List.mem_append_right _ (List.mem_cons_self ..))
    · intro hname
      refine hnamed d n h (List.forall_mem_append.mpr ⟨(hbuild d n h).2, ?_⟩)
      exact List.forall_mem_singleton.mpr hname
  case selections_eq =>
    intro d n n' h h'
    rw [(hbuild _ _ h').1, (hbuild _ _ h).1, hadd]

/-- Such are the drafts from which the node of their parts is built if it is lawful. -/
theorem Field.TakenWhen.of_lawful {δ ν : Type} {f : Field} {build : δ → Except BuildError ν}
    {add : δ → Field → δ} {selections : ν → List Field} {node : δ → ν} {IsLawful : ν → Prop}
    (hadd : ∀ d, selections (node (add d f)) = selections (node d) ++ [f])
    (hbuild : ∀ {d n}, build d = .ok n ↔ n = node d ∧ IsLawful (node d))
    (hnamed : ∀ {n}, IsLawful n → AllNamed (selections n))
    (hlawful : ∀ {d}, IsLawful (node d) → AllNamed (selections (node (add d f))) →
      IsLawful (node (add d f))) :
    f.TakenWhen (f.name ≠ "") build add selections := by
  refine .of_named (fun d => selections (node d)) hadd (fun d n h => ?_) fun d n h hall => ?_
  · obtain ⟨rfl, hnode⟩ := hbuild.mp h
    exact ⟨rfl, hnamed hnode⟩
  · rw [← hadd] at hall
    exact ⟨_, hbuild.mpr ⟨rfl, hlawful (hbuild.mp h).2 hall⟩⟩

section Drafts

variable (f : Field)

theorem Field.Draft.takenWhen_named :
    f.TakenWhen (f.name ≠ "") build addSelection Field.selections :=
  .of_lawful (fun _ => rfl) build_eq_ok_iff Field.IsLawful.selections_named
    fun h hnamed => { h with selections_named := hnamed }

theorem InlineFragment.Draft.takenWhen_named :
    f.TakenWhen (f.name ≠ "") build addSelection InlineFragment.selections :=
  .of_lawful (fun _ => rfl) build_eq_ok_iff InlineFragment.IsLawful.selections_named
    fun h hnamed => { h with selections_named := hnamed }

theorem Fragment.Draft.takenWhen_named :
    f.TakenWhen (f.name ≠ "") build addSelection Fragment.selections :=
  .of_lawful (fun _ => rfl) build_eq_ok_iff Fragment.IsLawful.selections_named
    fun h hnamed => { h with selections_named := hnamed }

/-- The declarations of an operation are made without regard to the selections. -/
theorem Operation.Draft.takenWhen_named :
    f.TakenWhen (f.name ≠ "") build addSelection Operation.selections := by
  refine .of_named Draft.selections (fun _ => rfl) (fun d n h => ?_) fun d n h hnamed => ?_
  · obtain ⟨hselections, m, -, rfl⟩ := build_eq_ok_iff.mp h
    exact ⟨rfl, hselections⟩
  · obtain ⟨-, m, hm, -⟩ := build_eq_ok_iff.mp h
    exact ⟨_, build_eq_ok_iff.mpr ⟨hnamed, m, hm, rfl⟩⟩

end Drafts

/-! ### The field of an operation -/

/-- What the field of the operation is, given the alias. -/
structure Field.Reuses (f : Field) (o : Operation) (aliasName : Option String) : Prop where
  /-- The field selects what the operation selects, and nothing else. -/
  selections_eq : f.selections = o.selections
  arguments_eq : f.arguments = ∅
  inlineFragments_eq : f.inlineFragments = []
  /-- The declarations stand in one place of the text of the operation, and are left out there. -/
  undeclared : ∃ head tail, o.toGraphQL = head ++ o.declarations.text ++ tail ∧
    o.undeclared.toGraphQL = head ++ tail
  /-- Without them the operation is its keyword and, if the field without alias has a text, this
  text behind a space. -/
  undeclared_text : o.undeclared.toGraphQL =
    if (ofOperation o none).toGraphQL = "" then o.kind.keyword
    else o.kind.keyword ++ " " ++ (ofOperation o none).toGraphQL
  /-- An alias stands before this text if the operation has a name. -/
  text_of_named : ∀ a, aliasName = some a → a ≠ "" → o.name ≠ "" →
    f.toGraphQL = a ++ ": " ++ (ofOperation o none).toGraphQL
  text_of_anonymous : o.name = "" → f.toGraphQL = (ofOperation o none).toGraphQL
  /-- Every draft takes the field for a selection exactly if the operation has a name. -/
  taken_by_field :
    f.TakenWhen (o.name ≠ "") Field.Draft.build Field.Draft.addSelection Field.selections
  taken_by_inlineFragment :
    f.TakenWhen (o.name ≠ "") InlineFragment.Draft.build InlineFragment.Draft.addSelection
      InlineFragment.selections
  taken_by_fragment :
    f.TakenWhen (o.name ≠ "") Fragment.Draft.build Fragment.Draft.addSelection Fragment.selections
  taken_by_operation :
    f.TakenWhen (o.name ≠ "") Operation.Draft.build Operation.Draft.addSelection
      Operation.selections

/-- **The field of an operation keeps its selections**: it is written as the operation is, without
keyword and declarations, and can be selected if the operation has a name. -/
theorem Field.ofOperation_reuses (o : Operation) (aliasName : Option String) :
    (ofOperation o aliasName).Reuses o aliasName where
  selections_eq := rfl
  arguments_eq := rfl
  inlineFragments_eq := rfl
  undeclared := ⟨_, _, o.toGraphQL_eq, o.toGraphQL_undeclared⟩
  undeclared_text := toGraphQL_undeclared_eq o
  text_of_named := by
    rintro a rfl ha hname
    have halias : aliasText (some a) = a ++ ": " := by
      rw [aliasText, appendAlias, if_neg ha, String.empty_append]
    have hnone : aliasText none = "" := rfl
    rw [toGraphQL_ofOperation_named o _ hname, toGraphQL_ofOperation_named o _ hname, halias, hnone]
    simp only [String.append_assoc, String.empty_append]
  text_of_anonymous := by
    intro hname
    rw [toGraphQL_ofOperation_anonymous o _ hname, toGraphQL_ofOperation_anonymous o _ hname]
  taken_by_field := Field.Draft.takenWhen_named (ofOperation o aliasName)
  taken_by_inlineFragment := InlineFragment.Draft.takenWhen_named (ofOperation o aliasName)
  taken_by_fragment := Fragment.Draft.takenWhen_named (ofOperation o aliasName)
  taken_by_operation := Operation.Draft.takenWhen_named (ofOperation o aliasName)

/-- An operation without a name keeps neither alias nor space, and the draft of a field refuses what
it becomes. -/
theorem Field.ofOperation_reuses_anonymous :
    let declarations : Arguments := .ofList [("$n", .placeholder ⟨.int, true⟩)]
    let o : Operation := ⟨.query, "", [Field.ofName "id", Field.ofName "name"], declarations⟩
    let d := Field.draft "user"
    (ofOperation o (some "a")).Reuses o (some "a") ∧
      o.toGraphQL = "query($n: Int!) \x7b id name \x7d" ∧
      (ofOperation o (some "a")).toGraphQL = "\x7b id name \x7d" ∧
      (∃ f, d.build = .ok f) ∧ ¬∃ f, (d.addSelection (ofOperation o (some "a"))).build = .ok f := by
  intro declarations o d
  have hreuses := ofOperation_reuses o (some "a")
  have hbuild : d.build = .ok (Field.ofName "user") := rfl
  refine ⟨hreuses, by decide, by decide, ⟨_, hbuild⟩, fun h => ?_⟩
  exact (hreuses.taken_by_field.built_iff hbuild).mp h rfl

end QueryComposer
