import QueryComposer.Definition.Basic
import QueryComposer.Proofs.Value.Literal

/-!
# Texts are put together from the texts of the parts

Every node writes itself after a text that is already there.  What it writes does not depend on that
text (`Value.appendTo_eq`, `Field.appendTo_eq` and their fellows), so the text of a node is made of
the texts of its parts: `toGraphQL_list`, `Field.toGraphQL_eq` and so on say how.  Parts in a row
are written with a separator before each but the first, which gives their texts joined
(`append_eq_intercalate`).
-/

namespace QueryComposer

/-! ### Parts in a row -/

section Row

variable {α : Type} {separator : String} {text : α → String}
  {write : Bool → List α → String → String}

/-- Items that follow others are written with the separator before each of them. -/
theorem append_eq_join {xs : List α} (hnil : ∀ first sink, write first [] sink = sink)
    (hcons : ∀ x ∈ xs, ∀ first rest sink, write first (x :: rest) sink =
      write false rest ((if first then sink else sink ++ separator) ++ text x)) (sink : String) :
    write false xs sink = sink ++ String.join (xs.map fun x => separator ++ text x) := by
  induction xs generalizing sink with
  | nil => rw [hnil, List.map_nil, String.join_nil, String.append_empty]
  | cons x xs ih =>
    obtain ⟨hx, hxs⟩ := List.forall_mem_cons.mp hcons
    rw [hx, ih hxs, if_neg (by decide), List.map_cons, String.join_cons]
    simp only [String.append_assoc]

theorem intercalate_cons (t : String) (ts : List String) :
    separator.intercalate (t :: ts) = t ++ String.join (ts.map (separator ++ ·)) := by
  induction ts generalizing t with
  | nil => rw [String.intercalate_singleton, List.map_nil, String.join_nil, String.append_empty]
  | cons u ts ih =>
    rw [String.intercalate_cons_cons, ih, List.map_cons, String.join_cons]
    simp only [String.append_assoc]

/-- Items from the first on are written as their texts joined. -/
theorem append_eq_intercalate {xs : List α} (hnil : ∀ first sink, write first [] sink = sink)
    (hcons : ∀ x ∈ xs, ∀ first rest sink, write first (x :: rest) sink =
      write false rest ((if first then sink else sink ++ separator) ++ text x)) (sink : String) :
    write true xs sink = sink ++ separator.intercalate (xs.map text) := by
  cases xs with
  | nil => rw [hnil, List.map_nil, String.intercalate_nil, String.append_empty]
  | cons x xs =>
    obtain ⟨hx, hxs⟩ := List.forall_mem_cons.mp hcons
    rw [hx, append_eq_join hnil hxs, if_pos rfl, List.map_cons, intercalate_cons, List.map_map]
    simp only [String.append_assoc, Function.comp_def]

end Row

/-! ### Values -/

namespace Value

/-- The text of a member of an object. -/
def memberText (m : String × Value) : String := "\"" ++ m.1 ++ "\": " ++ m.2.toGraphQL

theorem appendElements_eq {elements : List Value}
    (h : ∀ v ∈ elements, ∀ sink, v.appendTo sink = sink ++ v.toGraphQL) (sink : String) :
    appendElements true elements sink = sink ++ ", ".intercalate (elements.map toGraphQL) := by
  refine append_eq_intercalate (fun _ _ => by rw [appendElements]) ?_ sink
  intro v hv first rest sink
  rw [appendElements, h v hv]

theorem appendMembers_eq {members : List (String × Value)}
    (h : ∀ m ∈ members, ∀ sink, m.2.appendTo sink = sink ++ m.2.toGraphQL) (sink : String) :
    appendMembers true members sink = sink ++ ", ".intercalate (members.map memberText) := by
  refine append_eq_intercalate (fun _ _ => by rw [appendMembers]) ?_ sink
  rintro ⟨key, v⟩ hm first rest sink
  rw [appendMembers, h _ hm, memberText]
  simp only [String.append_assoc]

theorem appendString_eq (s sink : String) : appendString s sink = sink ++ appendString s "" := by
  unfold appendString
  split
  · rw [String.empty_append]
  · simp only [String.empty_append, String.append_assoc]

/-- What a value writes does not depend on the text before it. -/
theorem appendTo_eq (v : Value) : ∀ sink, v.appendTo sink = sink ++ v.toGraphQL := by
  induction v using nestedInduction with
  | list elements ih =>
    intro sink
    rw [toGraphQL, appendTo, appendTo, appendElements_eq ih, appendElements_eq ih]
    simp only [String.empty_append, String.append_assoc]
  | object members ih =>
    intro sink
    rw [toGraphQL, appendTo, appendTo, appendMembers_eq ih, appendMembers_eq ih]
    simp only [String.empty_append, String.append_assoc]
  | string s =>
    intro sink
    exact appendString_eq s sink
  | placeholder t =>
    intro sink
    rw [toGraphQL, appendTo, appendTo, InputType.appendTo, InputType.appendTo]
    split
    · simp only [String.empty_append, String.append_assoc]
    · rw [String.empty_append]
  | boolean | float | int | reference =>
    intro sink
    simp only [toGraphQL, appendTo, String.empty_append, String.append_assoc]

theorem toGraphQL_list (elements : List Value) :
    (list elements).toGraphQL = "[" ++ ", ".intercalate (elements.map toGraphQL) ++ "]" := by
  rw [toGraphQL, appendTo, appendElements_eq fun v _ => v.appendTo_eq, String.empty_append]

theorem toGraphQL_object (members : List (String × Value)) :
    (object members).toGraphQL = "\x7b" ++ ", ".intercalate (members.map memberText) ++ "\x7d" := by
  rw [toGraphQL, appendTo, appendMembers_eq fun m _ => m.2.appendTo_eq, String.empty_append]

end Value

/-! ### Arguments -/

namespace Arguments

def entryText (entry : String × Value) : String := entry.1 ++ ": " ++ entry.2.toGraphQL

def text (arguments : Arguments) : String := arguments.appendTo ""

theorem appendEntries_eq (entries : List (String × Value)) (sink : String) :
    appendEntries true entries sink = sink ++ ", ".intercalate (entries.map entryText) := by
  refine append_eq_intercalate (fun _ _ => by rw [appendEntries]) ?_ sink
  rintro ⟨name, v⟩ - first rest sink
  rw [appendEntries, v.appendTo_eq, entryText]
  simp only [String.append_assoc]

theorem text_eq (arguments : Arguments) :
    arguments.text = if arguments.isEmpty then "" else
      "(" ++ ", ".intercalate (arguments.entries.map entryText) ++ ")" := by
  rw [text, appendTo, appendEntries_eq, String.empty_append]

theorem appendTo_eq (arguments : Arguments) (sink : String) :
    arguments.appendTo sink = sink ++ arguments.text := by
  rw [text_eq, appendTo, appendEntries_eq]
  split
  · rw [String.append_empty]
  · simp only [String.append_assoc]

end Arguments

/-! ### Directives -/

namespace Directive

theorem toGraphQL_eq (d : Directive) : d.toGraphQL = "@" ++ d.name ++ d.arguments.text := by
  rw [toGraphQL, appendTo, Arguments.appendTo_eq, String.empty_append]

theorem appendTo_eq (d : Directive) (sink : String) : d.appendTo sink = sink ++ d.toGraphQL := by
  rw [toGraphQL_eq, appendTo, Arguments.appendTo_eq]
  simp only [String.append_assoc]

end Directive

/-! ### Fields and inline fragments -/

/-- Induction over the selections and inline fragments below fields and inline fragments. -/
theorem Field.nestedInduction {P : Field → Prop} {Q : InlineFragment → Prop}
    (field : ∀ f : Field, (∀ g ∈ f.selections, P g) → (∀ i ∈ f.inlineFragments, Q i) → P f)
    (inlineFragment : ∀ i : InlineFragment, (∀ g ∈ i.selections, P g) → Q i) :
    (∀ f, P f) ∧ ∀ i, Q i := by
  have hfield : ∀ f, P f := fun f =>
    @Field.rec P Q (fun fragments => ∀ i ∈ fragments, Q i) (fun fields => ∀ g ∈ fields, P g)
      (fun _ _ _ _ _ hfragments hfields => field _ hfields hfragments)
      (fun _ _ _ hfields => inlineFragment _ hfields)
      (fun _ h => absurd h List.not_mem_nil)
      (fun _ _ hi hrest => List.forall_mem_cons.mpr ⟨hi, hrest⟩)
      (fun _ h => absurd h List.not_mem_nil)
      (fun _ _ hg hrest => List.forall_mem_cons.mpr ⟨hg, hrest⟩) f
  exact ⟨hfield, fun i => inlineFragment i fun g _ => hfield g⟩

/-- The text of the parts of a selection set, which is not written when there are none. -/
def selectionText (opening : String) (texts : List String) : String :=
  if texts = [] then "" else opening ++ " ".intercalate texts ++ " \x7d"

/-- The text of the alias that stands before the name of a field. -/
def aliasText (aliasName : Option String) : String := appendAlias aliasName ""

theorem appendAlias_eq (aliasName : Option String) (sink : String) :
    appendAlias aliasName sink = sink ++ aliasText aliasName := by
  unfold aliasText appendAlias
  cases aliasName with
  | none => rw [String.append_empty]
  | some a =>
    by_cases ha : a = ""
    · simp only [ha, if_true, String.append_empty]
    · simp only [ha, if_false, String.empty_append, String.append_assoc]

/-- The text of the type condition of an inline fragment. -/
def typeConditionText (typeCondition : Option String) : String :=
  appendTypeCondition typeCondition ""

theorem appendTypeCondition_eq (typeCondition : Option String) (sink : String) :
    appendTypeCondition typeCondition sink = sink ++ typeConditionText typeCondition := by
  unfold typeConditionText appendTypeCondition
  cases typeCondition with
  | none => rw [String.append_empty]
  | some type => simp only [String.empty_append, String.append_assoc]

def directiveText (directive : Option Directive) : String := appendDirective directive ""

theorem appendDirective_eq (directive : Option Directive) (sink : String) :
    appendDirective directive sink = sink ++ directiveText directive := by
  unfold directiveText appendDirective
  cases directive with
  | none => rw [String.append_empty]
  | some d => simp only [Directive.appendTo_eq, String.empty_append, String.append_assoc]

theorem appendFields_eq {fields : List Field}
    (h : ∀ f ∈ fields, ∀ sink, f.appendTo sink = sink ++ f.toGraphQL) (sink : String) :
    appendFields true fields sink = sink ++ " ".intercalate (fields.map Field.toGraphQL) := by
  refine append_eq_intercalate (fun _ _ => by rw [appendFields]) ?_ sink
  intro f hf first rest sink
  rw [appendFields, h f hf]

/-- Inline fragments are written after the selections as one row with them. -/
theorem appendInlineFragments_eq {fields : List Field} {fragments : List InlineFragment}
    (hfields : ∀ f ∈ fields, ∀ sink, f.appendTo sink = sink ++ f.toGraphQL)
    (hfragments : ∀ i ∈ fragments, ∀ sink, i.appendTo sink = sink ++ i.toGraphQL)
    (sink : String) :
    appendInlineFragments fields.isEmpty fragments (appendFields true fields sink) =
      sink ++ " ".intercalate
        (fields.map Field.toGraphQL ++ fragments.map InlineFragment.toGraphQL) := by
  have hnil : ∀ first sink, appendInlineFragments first [] sink = sink :=
    fun _ _ => by rw [appendInlineFragments]
  have hcons : ∀ i ∈ fragments, ∀ first rest sink, appendInlineFragments first (i :: rest) sink =
      appendInlineFragments false rest ((if first then sink else sink ++ " ") ++ i.toGraphQL) := by
    intro i hi first rest sink
    rw [appendInlineFragments, hfragments i hi]
  rw [appendFields_eq hfields]
  cases fields with
  | nil =>
    show appendInlineFragments true fragments _ = _
    rw [append_eq_intercalate hnil hcons, List.map_nil, String.intercalate_nil, String.append_empty,
      List.nil_append]
  | cons f fields =>
    show appendInlineFragments false fragments _ = _
    rw [append_eq_join hnil hcons, List.map_cons, List.cons_append, intercalate_cons,
      intercalate_cons, List.map_append, String.join_append]
    simp only [String.append_assoc, List.map_map, Function.comp_def]

/-- The texts of what a field selects, the inline fragments after the selections. -/
def Field.selectedTexts (f : Field) : List String :=
  f.selections.map Field.toGraphQL ++ f.inlineFragments.map InlineFragment.toGraphQL

theorem Field.selectedTexts_eq_nil {f : Field} :
    f.selectedTexts = [] ↔ (f.selections.isEmpty && f.inlineFragments.isEmpty) = true := by
  simp [Field.selectedTexts]

/-- What stands before the selection set of a field: alias, name and arguments, or nothing without a
name. -/
def Field.headText (f : Field) : String :=
  if f.name = "" then "" else aliasText f.aliasName ++ f.name ++ f.arguments.text

def InlineFragment.headText (f : InlineFragment) : String :=
  "..." ++ typeConditionText f.typeCondition ++ directiveText f.directive

/-- The field after `sink`, given what its parts write. -/
theorem Field.appendTo_of_parts {f : Field}
    (hfields : ∀ g ∈ f.selections, ∀ sink, g.appendTo sink = sink ++ g.toGraphQL)
    (hfragments : ∀ i ∈ f.inlineFragments, ∀ sink, i.appendTo sink = sink ++ i.toGraphQL)
    (sink : String) :
    f.appendTo sink = sink ++ (f.headText ++
      selectionText (if f.name = "" then "\x7b " else " \x7b ") f.selectedTexts) := by
  have hnil := @Field.selectedTexts_eq_nil f
  obtain ⟨aliasName, arguments, inlineFragments, name, selections⟩ := f
  have hhead : (if name = "" then sink
      else arguments.appendTo (appendAlias aliasName sink ++ name)) =
      sink ++ Field.headText ⟨aliasName, arguments, inlineFragments, name, selections⟩ := by
    rw [Field.headText]
    split
    · rw [String.append_empty]
    · rw [Arguments.appendTo_eq, appendAlias_eq]
      simp only [String.append_assoc]
  simp only [Field.appendTo, hhead, selectionText]
  split
  · rename_i hempty
    rw [if_pos (hnil.mpr hempty), String.append_empty]
  · rename_i hempty
    rw [if_neg (mt hnil.mp hempty), appendInlineFragments_eq hfields hfragments,
      Field.selectedTexts]
    simp only [String.append_assoc]

theorem InlineFragment.appendTo_of_parts {f : InlineFragment}
    (hfields : ∀ g ∈ f.selections, ∀ sink, g.appendTo sink = sink ++ g.toGraphQL) (sink : String) :
    f.appendTo sink = sink ++ (f.headText ++
      selectionText " \x7b " (f.selections.map Field.toGraphQL)) := by
  obtain ⟨directive, selections, typeCondition⟩ := f
  have hhead : appendDirective directive (appendTypeCondition typeCondition (sink ++ "...")) =
      sink ++ InlineFragment.headText ⟨directive, selections, typeCondition⟩ := by
    rw [appendDirective_eq, appendTypeCondition_eq, InlineFragment.headText]
    simp only [String.append_assoc]
  simp only [InlineFragment.appendTo, hhead, selectionText, List.map_eq_nil_iff, List.isEmpty_iff]
  split
  · rw [String.append_empty]
  · rw [appendFields_eq hfields]
    simp only [String.append_assoc]

/-- What a field or an inline fragment writes does not depend on the text before it. -/
theorem appendTo_eq_selection :
    (∀ (f : Field) (sink : String), f.appendTo sink = sink ++ f.toGraphQL) ∧
      ∀ (f : InlineFragment) (sink : String), f.appendTo sink = sink ++ f.toGraphQL := by
  refine Field.nestedInduction ?_ ?_
  · intro f hfields hfragments sink
    rw [Field.toGraphQL, Field.appendTo_of_parts hfields hfragments,
      Field.appendTo_of_parts hfields hfragments, String.empty_append]
  · intro f hfields sink
    rw [InlineFragment.toGraphQL, InlineFragment.appendTo_of_parts hfields,
      InlineFragment.appendTo_of_parts hfields, String.empty_append]

theorem Field.appendTo_eq (f : Field) (sink : String) : f.appendTo sink = sink ++ f.toGraphQL :=
  appendTo_eq_selection.1 f sink

theorem InlineFragment.appendTo_eq (f : InlineFragment) (sink : String) :
    f.appendTo sink = sink ++ f.toGraphQL :=
  appendTo_eq_selection.2 f sink

/-- The text of a field: its head and what it selects in braces. -/
theorem Field.toGraphQL_eq (f : Field) :
    f.toGraphQL = f.headText ++
      selectionText (if f.name = "" then "\x7b " else " \x7b ") f.selectedTexts := by
  rw [Field.toGraphQL,
    Field.appendTo_of_parts (fun g _ => g.appendTo_eq) (fun i _ => i.appendTo_eq),
    String.empty_append]

theorem InlineFragment.toGraphQL_eq (f : InlineFragment) :
    f.toGraphQL = f.headText ++ selectionText " \x7b " (f.selections.map Field.toGraphQL) := by
  rw [InlineFragment.toGraphQL, InlineFragment.appendTo_of_parts fun g _ => g.appendTo_eq,
    String.empty_append]

theorem appendSelectionSet_eq (selections : List Field) (sink : String) :
    appendSelectionSet selections sink =
      sink ++ selectionText " \x7b " (selections.map Field.toGraphQL) := by
  simp only [appendSelectionSet, selectionText, List.map_eq_nil_iff, List.isEmpty_iff]
  split
  · rw [String.append_empty]
  · rw [appendFields_eq fun g _ => g.appendTo_eq]
    simp only [String.append_assoc]

/-! ### Definitions -/

theorem Fragment.toGraphQL_eq (f : Fragment) :
    f.toGraphQL = "fragment " ++ f.name ++ " on " ++ f.typeCondition ++ directiveText f.directive ++
      selectionText " \x7b " (f.selections.map Field.toGraphQL) := by
  simp only [Fragment.toGraphQL, Fragment.appendTo, appendSelectionSet_eq, appendDirective_eq,
    String.empty_append]

theorem Operation.toGraphQL_eq (o : Operation) :
    o.toGraphQL = o.kind.keyword ++ (if o.name = "" then "" else " " ++ o.name) ++
      o.declarations.text ++ selectionText " \x7b " (o.selections.map Field.toGraphQL) := by
  simp only [Operation.toGraphQL, Operation.appendTo, appendSelectionSet_eq, Arguments.appendTo_eq,
    String.empty_append]
  split
  · rw [String.append_empty]
  · simp only [String.append_assoc]

end QueryComposer
