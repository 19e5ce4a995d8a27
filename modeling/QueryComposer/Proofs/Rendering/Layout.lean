import QueryComposer.Proofs.Rendering.Canonical

/-!
# The layout of texts

How the text of a node is put together from the texts of its children.  `Layout` has the rules for
the parts: rows of texts with a separator between neighbours, in brackets that go away together with
an empty row.  Over these rules each sort of node has a printer of its own that knows nothing of a
sink, `Value.layout`, `Field.layout` and so on.

Main statement: a node of any sort, lawful or not, writes its layout behind whatever the sink holds,
and nodes that agree but for children of equal texts have equal texts (`writesLayout`).
-/

namespace QueryComposer

/-! ### Rules for the parts -/

namespace Layout

/-- The texts in a row between brackets, and nothing at all when there are no texts. -/
def enclosed (opening separator closing : String) (texts : List String) : String :=
  if texts = [] then "" else opening ++ separator.intercalate texts ++ closing

/-- Arguments or declarations, each by its name and the text of its value. -/
def arguments (entries : List (String × String)) : String :=
  enclosed "(" ", " ")" (entries.map fun (name, text) => name ++ ": " ++ text)

def list (texts : List String) : String := "[" ++ ", ".intercalate texts ++ "]"

/-- An object, each member by its key and the text of its value. -/
def object (members : List (String × String)) : String :=
  let texts := members.map fun (key, text) => "\"" ++ key ++ "\": " ++ text
  "\x7b" ++ ", ".intercalate texts ++ "\x7d"

/-- A string is bare when it begins with a dollar sign, and else in quotes. -/
def string (s : String) : String :=
  if s.toList.head? = some '$' then s else "\"" ++ s ++ "\""

/-- The alias of a field, if there is one that is not empty. -/
def aliasName : Option String → String
  | none => ""
  | some a => if a = "" then "" else a ++ ": "

/-- A part that is written behind a word, if it is there. -/
def optional (word : String) : Option String → String
  | none => ""
  | some text => word ++ text

/-- What is selected, in braces behind the head of a node.  A space stands between the two when both
are there. -/
def selecting (head : String) (texts : List String) : String :=
  (if head = "" ∨ texts = [] then head else head ++ " ") ++ enclosed "\x7b " " " " \x7d" texts

end Layout

/-! ### Printers -/

def InputType.layout (t : InputType) : String := t.kind.name ++ (if t.required then "!" else "")

mutual

def Value.layout : Value → String
  | .boolean b => if b then "true" else "false"
  | .float x => numberStyle.text x
  | .int n => toString n.toInt
  | .list elements => Layout.list (layoutElements elements)
  | .object members => Layout.object (layoutMembers members)
  | .placeholder t => t.layout
  | .string s => Layout.string s
  | .reference name => "$" ++ name
termination_by structural v => v

def Value.layoutElements : List Value → List String
  | [] => []
  | v :: rest => v.layout :: layoutElements rest
termination_by structural vs => vs

def Value.layoutMembers : List (String × Value) → List (String × String)
  | [] => []
  | (key, v) :: rest => (key, v.layout) :: layoutMembers rest
termination_by structural ms => ms

end

/-- The entries with the texts of their values. -/
def Arguments.texts (text : Value → String) (arguments : Arguments) : List (String × String) :=
  arguments.entries.map fun entry => (entry.1, text entry.2)

def Directive.layout (d : Directive) : String :=
  "@" ++ d.name ++ Layout.arguments (d.arguments.texts Value.layout)

mutual

/-- A field without a name is what it selects and nothing else. -/
def Field.layout : Field → String
  | ⟨aliasName, arguments, inlineFragments, name, selections⟩ =>
    let head :=
      if name = "" then ""
      else Layout.aliasName aliasName ++ name ++ Layout.arguments (arguments.texts Value.layout)
    Layout.selecting head (layoutFields selections ++ layoutInlineFragments inlineFragments)
termination_by structural f => f

def InlineFragment.layout : InlineFragment → String
  | ⟨directive, selections, typeCondition⟩ =>
    let head :=
      "..." ++ Layout.optional " on " typeCondition
        ++ Layout.optional " " (directive.map Directive.layout)
    Layout.selecting head (layoutFields selections)
termination_by structural f => f

def layoutFields : List Field → List String
  | [] => []
  | f :: rest => f.layout :: layoutFields rest
termination_by structural fs => fs

def layoutInlineFragments : List InlineFragment → List String
  | [] => []
  | f :: rest => f.layout :: layoutInlineFragments rest
termination_by structural fs => fs

end

def Fragment.layout (f : Fragment) : String :=
  let head :=
    "fragment " ++ f.name ++ " on " ++ f.typeCondition
      ++ Layout.optional " " (f.directive.map Directive.layout)
  Layout.selecting head (f.selections.map Field.layout)

def Operation.layout (o : Operation) : String :=
  let name := if o.name = "" then "" else " " ++ o.name
  Layout.selecting (o.kind.keyword ++ name ++ Layout.arguments (o.declarations.texts Value.layout))
    (o.selections.map Field.layout)

def Definition.layout : Definition → String
  | field f => f.layout
  | fragment f => f.layout
  | operation o => o.layout

/-- Definitions stand on lines of their own. -/
def Document.layout (d : Document) : String :=
  Layout.enclosed "\x7b " "\n" " \x7d" (d.definitions.map Definition.layout)

/-! ### Rows -/

theorem Value.layoutElements_eq_map (elements : List Value) :
    layoutElements elements = elements.map layout := by
  induction elements with
  | nil => rfl
  | cons v rest ih => rw [layoutElements, ih, List.map_cons]

theorem Value.layoutMembers_eq_map (members : List (String × Value)) :
    layoutMembers members = members.map fun (key, v) => (key, v.layout) := by
  induction members with
  | nil => rfl
  | cons m rest ih => rw [layoutMembers, ih, List.map_cons]

theorem layoutFields_eq_map (fields : List Field) :
    layoutFields fields = fields.map Field.layout := by
  induction fields with
  | nil => rfl
  | cons f rest ih => rw [layoutFields, ih, List.map_cons]

theorem layoutInlineFragments_eq_map (fragments : List InlineFragment) :
    layoutInlineFragments fragments = fragments.map InlineFragment.layout := by
  induction fragments with
  | nil => rfl
  | cons f rest ih => rw [layoutInlineFragments, ih, List.map_cons]

/-! ### Values -/

theorem InputType.appendTo_eq (t : InputType) (sink : String) :
    t.appendTo sink = sink ++ t.layout := by
  rw [appendTo, layout]
  split
  · rw [String.append_assoc]
  · rw [String.append_empty]

theorem InputType.toGraphQL_eq_layout (t : InputType) : t.toGraphQL = t.layout := by
  rw [toGraphQL, appendTo_eq, String.empty_append]

theorem Layout.string_eq (s : String) : Layout.string s = (Value.string s).toGraphQL := by
  unfold Layout.string
  by_cases hs : ∃ rest, s.toList = '$' :: rest
  · obtain ⟨rest, hs⟩ := hs
    rw [Value.toGraphQL_string_dollar hs, hs, List.head?_cons, if_pos rfl]
  · have hhead : s.toList.head? ≠ some '$' := fun h => hs (List.head?_eq_some_iff.mp h)
    rw [Value.toGraphQL_string (not_exists.mp hs), if_neg hhead]

/-- The text of a value is its layout. -/
theorem Value.toGraphQL_eq_layout (v : Value) : v.toGraphQL = v.layout := by
  induction v using nestedInduction with
  | list elements ih =>
    have htexts : elements.map toGraphQL = elements.map layout := List.map_congr_left ih
    rw [toGraphQL_list, layout, layoutElements_eq_map, htexts, Layout.list]
  | object members ih =>
    have htexts : members.map memberText = (members.map fun (key, v) => (key, v.layout)).map
        fun (key, text) => "\"" ++ key ++ "\": " ++ text := by
      rw [List.map_map]
      refine List.map_congr_left fun m hm => ?_
      rw [memberText, ih m hm]
      rfl
    rw [toGraphQL_object, layout, layoutMembers_eq_map, htexts, Layout.object]
  | placeholder t =>
    rw [layout, ← InputType.toGraphQL_eq_layout]
    rfl
  | string s => rw [layout, Layout.string_eq]
  | reference name => rw [toGraphQL_reference, layout]
  | boolean | float | int =>
    rw [toGraphQL, appendTo, layout, String.empty_append]

/-! ### Arguments and directives -/

theorem Arguments.texts_toGraphQL (arguments : Arguments) :
    arguments.texts Value.toGraphQL = arguments.texts Value.layout :=
  List.map_congr_left fun entry _ => by rw [entry.2.toGraphQL_eq_layout]

theorem Arguments.text_eq_layout (arguments : Arguments) :
    arguments.text = Layout.arguments (arguments.texts Value.layout) := by
  have htexts : arguments.entries.map entryText =
      (arguments.texts Value.toGraphQL).map fun (name, text) => name ++ ": " ++ text := by
    rw [texts, List.map_map]
    rfl
  have hempty : arguments.isEmpty = true ↔ arguments.entries.map entryText = [] := by
    rw [OrderedMap.isEmpty, List.isEmpty_iff, List.map_eq_nil_iff]
  rw [text_eq, ← texts_toGraphQL, Layout.arguments, Layout.enclosed, ← htexts]
  simp only [hempty]

theorem Directive.toGraphQL_eq_layout (d : Directive) : d.toGraphQL = d.layout := by
  rw [toGraphQL_eq, layout, Arguments.text_eq_layout]

theorem directiveText_eq_layout (directive : Option Directive) :
    directiveText directive = Layout.optional " " (directive.map Directive.toGraphQL) := by
  cases directive with
  | none => rfl
  | some d =>
    rw [directiveText, appendDirective, Directive.appendTo_eq, String.empty_append]
    rfl

theorem directive_map_toGraphQL (directive : Option Directive) :
    directive.map Directive.toGraphQL = directive.map Directive.layout := by
  rw [funext Directive.toGraphQL_eq_layout]

/-! ### Selections -/

/-- The selection set behind a head that is not empty. -/
theorem Layout.selecting_eq {head : String} (hhead : head ≠ "") (texts : List String) :
    selecting head texts = head ++ selectionText " \x7b " texts := by
  unfold selecting enclosed selectionText
  by_cases htexts : texts = []
  · simp [htexts]
  · have hspace : " \x7b " = " " ++ "\x7b " := rfl
    rw [if_neg (not_or.mpr ⟨hhead, htexts⟩), if_neg htexts, if_neg htexts, hspace]
    simp only [String.append_assoc]

theorem Layout.selecting_empty (texts : List String) :
    selecting "" texts = selectionText "\x7b " texts := by
  rw [selecting, if_pos (Or.inl rfl), String.empty_append]
  rfl

theorem aliasText_eq_layout (aliasName : Option String) :
    aliasText aliasName = Layout.aliasName aliasName := by
  cases aliasName with
  | none => rfl
  | some a => rw [aliasText, appendAlias, Layout.aliasName, String.empty_append]

theorem typeConditionText_eq_layout (typeCondition : Option String) :
    typeConditionText typeCondition = Layout.optional " on " typeCondition := by
  cases typeCondition with
  | none => rfl
  | some type => rw [typeConditionText, appendTypeCondition, String.empty_append]; rfl

theorem InlineFragment.toGraphQL_eq_layout_of {f : InlineFragment}
    (hfields : ∀ g ∈ f.selections, g.toGraphQL = g.layout) : f.toGraphQL = f.layout := by
  obtain ⟨directive, selections, typeCondition⟩ := f
  have hhead : headText ⟨directive, selections, typeCondition⟩ =
      "..." ++ Layout.optional " on " typeCondition
        ++ Layout.optional " " (directive.map Directive.layout) := by
    rw [headText, typeConditionText_eq_layout, directiveText_eq_layout, directive_map_toGraphQL]
  have hne : headText ⟨directive, selections, typeCondition⟩ ≠ "" := by
    simp [headText, String.append_eq_empty_iff]
  have htexts : selections.map Field.toGraphQL = layoutFields selections := by
    rw [layoutFields_eq_map]
    exact List.map_congr_left hfields
  rw [toGraphQL_eq, layout, ← hhead, Layout.selecting_eq hne, ← htexts]

theorem Field.toGraphQL_eq_layout_of {f : Field}
    (hfields : ∀ g ∈ f.selections, g.toGraphQL = g.layout)
    (hfragments : ∀ i ∈ f.inlineFragments, i.toGraphQL = i.layout) : f.toGraphQL = f.layout := by
  obtain ⟨aliasName, arguments, inlineFragments, name, selections⟩ := f
  have htexts : selectedTexts ⟨aliasName, arguments, inlineFragments, name, selections⟩ =
      layoutFields selections ++ layoutInlineFragments inlineFragments := by
    rw [selectedTexts, layoutFields_eq_map, layoutInlineFragments_eq_map,
      List.map_congr_left hfields, List.map_congr_left hfragments]
  rw [toGraphQL_eq, htexts, layout, headText]
  -- A field without a name has no head, and the space goes with the head.
  by_cases hname : name = ""
  · simp only [if_pos hname]
    rw [Layout.selecting_empty, String.empty_append]
  · simp only [if_neg hname]
    rw [aliasText_eq_layout, Arguments.text_eq_layout, Layout.selecting_eq]
    simp [String.append_eq_empty_iff, hname]

theorem toGraphQL_eq_layout_selection :
    (∀ f : Field, f.toGraphQL = f.layout) ∧ ∀ f : InlineFragment, f.toGraphQL = f.layout :=
  Field.nestedInduction
    (fun _ hfields hfragments => Field.toGraphQL_eq_layout_of hfields hfragments)
    fun _ hfields => InlineFragment.toGraphQL_eq_layout_of hfields

/-- The text of a field is its layout. -/
theorem Field.toGraphQL_eq_layout (f : Field) : f.toGraphQL = f.layout :=
  toGraphQL_eq_layout_selection.1 f

theorem InlineFragment.toGraphQL_eq_layout (f : InlineFragment) : f.toGraphQL = f.layout :=
  toGraphQL_eq_layout_selection.2 f

/-! ### Definitions and documents -/

theorem Fragment.toGraphQL_eq_layout (f : Fragment) : f.toGraphQL = f.layout := by
  have hne :
      "fragment " ++ f.name ++ " on " ++ f.typeCondition ++ directiveText f.directive ≠ "" := by
    simp [String.append_eq_empty_iff]
  rw [toGraphQL_eq, ← Layout.selecting_eq hne, directiveText_eq_layout, directive_map_toGraphQL,
    funext Field.toGraphQL_eq_layout]
  rfl

theorem Fragment.appendTo_eq (f : Fragment) (sink : String) :
    f.appendTo sink = sink ++ f.toGraphQL := by
  simp only [toGraphQL, appendTo, appendSelectionSet_eq, appendDirective_eq, String.empty_append,
    String.append_assoc]

theorem OperationKind.keyword_ne_empty (kind : OperationKind) : kind.keyword ≠ "" := by
  cases kind <;> decide

theorem Operation.toGraphQL_eq_layout (o : Operation) : o.toGraphQL = o.layout := by
  have hne : o.kind.keyword ++ (if o.name = "" then "" else " " ++ o.name) ++ o.declarations.text ≠
      "" := by
    simp [String.append_eq_empty_iff, o.kind.keyword_ne_empty]
  rw [toGraphQL_eq, ← Layout.selecting_eq hne, Arguments.text_eq_layout,
    funext Field.toGraphQL_eq_layout]
  rfl

theorem Operation.appendTo_eq (o : Operation) (sink : String) :
    o.appendTo sink = sink ++ o.toGraphQL := by
  simp only [toGraphQL, appendTo, appendSelectionSet_eq, Arguments.appendTo_eq, String.empty_append]
  split
  · simp only [String.append_assoc]
  · simp only [String.append_assoc]

theorem Definition.appendTo_eq (d : Definition) (sink : String) :
    d.appendTo sink = sink ++ d.toGraphQL := by
  cases d with
  | field f => exact f.appendTo_eq sink
  | fragment f => exact f.appendTo_eq sink
  | operation o => exact o.appendTo_eq sink

theorem Definition.toGraphQL_eq_layout (d : Definition) : d.toGraphQL = d.layout := by
  cases d with
  | field f => exact f.toGraphQL_eq_layout
  | fragment f => exact f.toGraphQL_eq_layout
  | operation o => exact o.toGraphQL_eq_layout

theorem Document.appendDefinitions_eq (definitions : List Definition) (sink : String) :
    appendDefinitions true definitions sink =
      sink ++ "\n".intercalate (definitions.map Definition.toGraphQL) := by
  refine append_eq_intercalate (fun _ _ => by rw [appendDefinitions]) ?_ sink
  intro d _ first rest sink
  rw [appendDefinitions, d.appendTo_eq]

theorem Document.appendTo_eq (d : Document) (sink : String) :
    d.appendTo sink = sink ++ d.layout := by
  rw [appendTo, appendDefinitions_eq, layout, Layout.enclosed, isEmpty,
    ← funext Definition.toGraphQL_eq_layout]
  simp only [List.isEmpty_iff, List.map_eq_nil_iff]
  split
  · rw [String.append_empty]
  · simp only [String.append_assoc]

theorem Document.toGraphQL_eq_layout (d : Document) : d.toGraphQL = d.layout := by
  rw [toGraphQL, appendTo_eq, String.empty_append]

/-! ### Every sort of node -/

/-- Nodes of a sort are written as their layout, whatever the sink holds.  Their texts depend on
their outlines alone, which have the texts of the children in the place of the children. -/
structure WritesLayout {α β : Type} (appendTo : α → String → String) (toGraphQL layout : α → String)
    (outline : α → β) : Prop where
  appendTo_eq : ∀ a sink, appendTo a sink = sink ++ layout a
  toGraphQL_eq : ∀ a, toGraphQL a = layout a
  toGraphQL_congr : ∀ a b, outline a = outline b → toGraphQL a = toGraphQL b

/-- A text that is made of the outline depends on the outline alone. -/
theorem WritesLayout.of_outline {α β : Type} {appendTo : α → String → String}
    {toGraphQL layout : α → String} {outline : α → β} (compose : β → String)
    (happend : ∀ a sink, appendTo a sink = sink ++ toGraphQL a)
    (htext : ∀ a, toGraphQL a = layout a) (hlayout : ∀ a, layout a = compose (outline a)) :
    WritesLayout appendTo toGraphQL layout outline where
  appendTo_eq a sink := by rw [happend, htext]
  toGraphQL_eq := htext
  toGraphQL_congr a b h := by rw [htext, htext, hlayout, hlayout, h]

/-- A value with the texts of its children in their place. -/
inductive Value.Outline where
  | leaf (v : Value)
  | list (texts : List String)
  | object (members : List (String × String))
  | placeholder (text : String)

def Value.outline : Value → Outline
  | .list elements => .list (elements.map toGraphQL)
  | .object members => .object (members.map fun m => (m.1, m.2.toGraphQL))
  | .placeholder t => .placeholder t.toGraphQL
  | v => .leaf v

def Value.Outline.text : Outline → String
  | leaf v => v.layout
  | list texts => Layout.list texts
  | object members => Layout.object members
  | placeholder text => text

theorem Value.layout_eq_outline (v : Value) : v.layout = v.outline.text := by
  cases v with
  | list elements =>
    rw [layout, layoutElements_eq_map, ← funext toGraphQL_eq_layout]
    rfl
  | object members =>
    have htexts : (members.map fun (key, v) => (key, v.layout)) =
        members.map fun m => (m.1, m.2.toGraphQL) :=
      List.map_congr_left fun m _ => by rw [toGraphQL_eq_layout]
    rw [layout, layoutMembers_eq_map, htexts]
    rfl
  | placeholder t =>
    rw [layout, ← InputType.toGraphQL_eq_layout]
    rfl
  | _ => rfl

/-- The text of what is defined. -/
def Definition.nodeText : Definition → String
  | field f => f.toGraphQL
  | fragment f => f.toGraphQL
  | operation o => o.toGraphQL

theorem InlineFragment.layout_eq (f : InlineFragment) :
    f.layout = Layout.selecting ("..." ++ Layout.optional " on " f.typeCondition
      ++ Layout.optional " " (f.directive.map Directive.toGraphQL))
        (f.selections.map Field.toGraphQL) := by
  obtain ⟨directive, selections, typeCondition⟩ := f
  rw [layout, layoutFields_eq_map, funext Field.toGraphQL_eq_layout, directive_map_toGraphQL]

theorem Field.layout_eq (f : Field) :
    f.layout = Layout.selecting (if f.name = "" then "" else
      Layout.aliasName f.aliasName ++ f.name
        ++ Layout.arguments (f.arguments.texts Value.toGraphQL))
        (f.selections.map Field.toGraphQL ++ f.inlineFragments.map InlineFragment.toGraphQL) := by
  obtain ⟨aliasName, arguments, inlineFragments, name, selections⟩ := f
  rw [layout, layoutFields_eq_map, layoutInlineFragments_eq_map, funext Field.toGraphQL_eq_layout,
    funext InlineFragment.toGraphQL_eq_layout, Arguments.texts_toGraphQL]

/-- **Every node is written as its layout**, whatever its sort, whether it breaks a rule or not, and
whatever stands before it; and it depends on its children only through their texts. -/
theorem writesLayout :
    WritesLayout Value.appendTo Value.toGraphQL Value.layout Value.outline ∧
    WritesLayout InputType.appendTo InputType.toGraphQL InputType.layout id ∧
    WritesLayout Directive.appendTo Directive.toGraphQL Directive.layout
      (fun d => (d.name, d.arguments.texts Value.toGraphQL)) ∧
    WritesLayout Field.appendTo Field.toGraphQL Field.layout
      (fun f => (f.aliasName, f.name, f.arguments.texts Value.toGraphQL,
        f.selections.map Field.toGraphQL, f.inlineFragments.map InlineFragment.toGraphQL)) ∧
    WritesLayout InlineFragment.appendTo InlineFragment.toGraphQL InlineFragment.layout
      (fun f => (f.typeCondition, f.directive.map Directive.toGraphQL,
        f.selections.map Field.toGraphQL)) ∧
    WritesLayout Fragment.appendTo Fragment.toGraphQL Fragment.layout
      (fun f => (f.name, f.typeCondition, f.directive.map Directive.toGraphQL,
        f.selections.map Field.toGraphQL)) ∧
    WritesLayout Operation.appendTo Operation.toGraphQL Operation.layout
      (fun o => (o.kind, o.name, o.declarations.texts Value.toGraphQL,
        o.selections.map Field.toGraphQL)) ∧
    WritesLayout Definition.appendTo Definition.toGraphQL Definition.layout Definition.nodeText ∧
    WritesLayout Document.appendTo Document.toGraphQL Document.layout
      (fun d => d.definitions.map Definition.toGraphQL) := by
  refine ⟨?value, ?inputType, ?directive, ?field, ?inlineFragment, ?fragment, ?operation,
    ?definition, ?document⟩
  case value =>
    exact .of_outline Value.Outline.text Value.appendTo_eq Value.toGraphQL_eq_layout
      Value.layout_eq_outline
  case inputType =>
    refine .of_outline InputType.layout (fun t sink => ?_) InputType.toGraphQL_eq_layout
      fun _ => rfl
    rw [t.appendTo_eq, t.toGraphQL_eq_layout]
  case directive =>
    refine .of_outline (fun (name, entries) => "@" ++ name ++ Layout.arguments entries)
      Directive.appendTo_eq Directive.toGraphQL_eq_layout fun d => ?_
    rw [Directive.layout, ← Arguments.texts_toGraphQL]
  case field =>
    exact .of_outline (fun (aliasName, name, entries, fields, fragments) =>
      Layout.selecting (if name = "" then "" else
        Layout.aliasName aliasName ++ name ++ Layout.arguments entries) (fields ++ fragments))
      Field.appendTo_eq Field.toGraphQL_eq_layout Field.layout_eq
  case inlineFragment =>
    exact .of_outline (fun (typeCondition, directive, fields) =>
      Layout.selecting ("..." ++ Layout.optional " on " typeCondition
        ++ Layout.optional " " directive) fields)
      InlineFragment.appendTo_eq InlineFragment.toGraphQL_eq_layout InlineFragment.layout_eq
  case fragment =>
    refine .of_outline (fun (name, typeCondition, directive, fields) =>
      Layout.selecting ("fragment " ++ name ++ " on " ++ typeCondition
        ++ Layout.optional " " directive) fields)
      Fragment.appendTo_eq Fragment.toGraphQL_eq_layout fun f => ?_
    rw [Fragment.layout, directive_map_toGraphQL, funext Field.toGraphQL_eq_layout]
  case operation =>
    refine .of_outline (fun (kind, name, entries, fields) =>
      Layout.selecting (OperationKind.keyword kind ++ (if name = "" then "" else " " ++ name)
        ++ Layout.arguments entries) fields)
      Operation.appendTo_eq Operation.toGraphQL_eq_layout fun o => ?_
    rw [Operation.layout, Arguments.texts_toGraphQL, funext Field.toGraphQL_eq_layout]
  case definition =>
    refine .of_outline id Definition.appendTo_eq Definition.toGraphQL_eq_layout fun d => ?_
    rw [← d.toGraphQL_eq_layout]
    cases d <;> rfl
  case document =>
    refine .of_outline (Layout.enclosed "\x7b " "\n" " \x7d") (fun d sink => ?_)
      Document.toGraphQL_eq_layout fun d => ?_
    · rw [d.appendTo_eq, d.toGraphQL_eq_layout]
    · rw [Document.layout, funext Definition.toGraphQL_eq_layout]

end QueryComposer
