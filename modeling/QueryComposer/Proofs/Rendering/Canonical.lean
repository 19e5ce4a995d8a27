import QueryComposer.Proofs.Rendering.Compositional

/-!
# Canonical forms

Two things can be given in more than one way without a difference in the text: a reference to a
variable may be given as the string that begins with its dollar sign, and an empty alias stands for
none.  The *canonical form* of a node decides for the reference and for no alias, at every depth,
and leaves everything else as it is.  Taking it does not change the text
(`Field.toGraphQL_canonical` and its fellows).
-/

namespace QueryComposer

/-! ### Values -/

namespace Value

mutual

/-- The value in which a string that begins with a dollar sign is a reference. -/
def canonical : Value → Value
  | list elements => list (canonicalElements elements)
  | object members => object (canonicalMembers members)
  | string s =>
    match s.toList with
    | '$' :: rest => reference (String.ofList rest)
    | _ => string s
  | v => v
termination_by structural v => v

def canonicalElements : List Value → List Value
  | [] => []
  | v :: rest => v.canonical :: canonicalElements rest
termination_by structural vs => vs

def canonicalMembers : List (String × Value) → List (String × Value)
  | [] => []
  | (key, v) :: rest => (key, v.canonical) :: canonicalMembers rest
termination_by structural ms => ms

end

def canonicalEntry (entry : String × Value) : String × Value := (entry.1, entry.2.canonical)

theorem canonical_list (elements : List Value) :
    (list elements).canonical = list (elements.map canonical) := by
  have hmap : canonicalElements elements = elements.map canonical := by
    induction elements with
    | nil => rfl
    | cons v rest ih => rw [canonicalElements, ih, List.map_cons]
  rw [canonical, hmap]

theorem canonical_object (members : List (String × Value)) :
    (object members).canonical = object (members.map canonicalEntry) := by
  have hmap : canonicalMembers members = members.map canonicalEntry := by
    induction members with
    | nil => rfl
    | cons m rest ih => rw [canonicalMembers, ih, List.map_cons, canonicalEntry]
  rw [canonical, hmap]

theorem canonical_string_dollar {s : String} {rest : List Char} (hs : s.toList = '$' :: rest) :
    (string s).canonical = reference (String.ofList rest) := by
  rw [canonical, hs]
  rfl

theorem canonical_string {s : String} (hs : ∀ rest, s.toList ≠ '$' :: rest) :
    (string s).canonical = string s := by
  rw [canonical]
  split
  · rename_i h
    exact absurd h (hs _)
  · rfl

theorem toGraphQL_string_dollar {s : String} {rest : List Char} (hs : s.toList = '$' :: rest) :
    (string s).toGraphQL = s := by
  rw [toGraphQL, appendTo, appendString, hs]
  exact String.empty_append

theorem toGraphQL_string {s : String} (hs : ∀ rest, s.toList ≠ '$' :: rest) :
    (string s).toGraphQL = "\"" ++ s ++ "\"" := by
  rw [toGraphQL, appendTo, appendString]
  split
  · rename_i h
    exact absurd h (hs _)
  · rw [String.empty_append]

theorem toGraphQL_reference (name : String) : (reference name).toGraphQL = "$" ++ name := by
  rw [toGraphQL, appendTo, String.empty_append]

/-- The canonical form of a value has the same text. -/
theorem toGraphQL_canonical (v : Value) : v.canonical.toGraphQL = v.toGraphQL := by
  induction v using nestedInduction with
  | list elements ih =>
    have hmap : (elements.map canonical).map toGraphQL = elements.map toGraphQL := by
      rw [List.map_map]
      exact List.map_congr_left ih
    rw [canonical_list, toGraphQL_list, toGraphQL_list, hmap]
  | object members ih =>
    have hmap : (members.map canonicalEntry).map memberText = members.map memberText := by
      rw [List.map_map]
      refine List.map_congr_left fun m hm => ?_
      show memberText (m.1, m.2.canonical) = memberText m
      rw [memberText, memberText, ih m hm]
    rw [canonical_object, toGraphQL_object, toGraphQL_object, hmap]
  | string s =>
    by_cases hs : ∃ rest, s.toList = '$' :: rest
    · obtain ⟨rest, hs⟩ := hs
      rw [canonical_string_dollar hs, toGraphQL_string_dollar hs, toGraphQL_reference]
      apply String.toList_injective
      show ("$" ++ String.ofList rest).toList = s.toList
      rw [String.toList_append, hs, String.toList_ofList, String.toList_ofList]
      rfl
    · rw [canonical_string (not_exists.mp hs)]
  | boolean | float | int | placeholder | reference => rfl

end Value

/-! ### Arguments and directives -/

/-- The arguments with the canonical forms of their values. -/
def Arguments.canonical (arguments : Arguments) : Arguments where
  entries := arguments.entries.map Value.canonicalEntry
  nodup_keys := by
    have hkeys : Entries.keys (arguments.entries.map Value.canonicalEntry) =
        Entries.keys arguments.entries := by
      rw [Entries.keys, Entries.keys, List.map_map]
      rfl
    rw [hkeys]
    exact arguments.nodup_keys

theorem Arguments.text_canonical (arguments : Arguments) :
    arguments.canonical.text = arguments.text := by
  have hempty : arguments.canonical.isEmpty = arguments.isEmpty := List.isEmpty_map
  have htexts : arguments.canonical.entries.map entryText = arguments.entries.map entryText := by
    show (arguments.entries.map Value.canonicalEntry).map entryText = _
    rw [List.map_map]
    refine List.map_congr_left fun entry _ => ?_
    show entryText (entry.1, entry.2.canonical) = entryText entry
    rw [entryText, entryText, Value.toGraphQL_canonical]
  rw [text_eq, text_eq, hempty, htexts]

/-- The directive with canonical arguments. -/
def Directive.canonical (d : Directive) : Directive := ⟨d.arguments.canonical, d.name⟩

theorem Directive.toGraphQL_canonical (d : Directive) : d.canonical.toGraphQL = d.toGraphQL := by
  rw [toGraphQL_eq, toGraphQL_eq, canonical, Arguments.text_canonical]

/-! ### Fields and inline fragments -/

mutual

/-- The field without an empty alias, and with canonical forms of all that it holds. -/
def Field.canonical (f : Field) : Field :=
  match f with
  | ⟨aliasName, arguments, inlineFragments, name, selections⟩ =>
    ⟨aliasName.filter (· ≠ ""), arguments.canonical, canonicalFragments inlineFragments, name,
      canonicalFields selections⟩
termination_by structural f

def InlineFragment.canonical (f : InlineFragment) : InlineFragment :=
  match f with
  | ⟨directive, selections, typeCondition⟩ =>
    ⟨directive.map Directive.canonical, canonicalFields selections, typeCondition⟩
termination_by structural f

def canonicalFields : List Field → List Field
  | [] => []
  | f :: rest => f.canonical :: canonicalFields rest
termination_by structural fs => fs

def canonicalFragments : List InlineFragment → List InlineFragment
  | [] => []
  | f :: rest => f.canonical :: canonicalFragments rest
termination_by structural fs => fs

end

theorem canonicalFields_eq_map (fields : List Field) :
    canonicalFields fields = fields.map Field.canonical := by
  induction fields with
  | nil => rfl
  | cons f rest ih => rw [canonicalFields, ih, List.map_cons]

theorem canonicalFragments_eq_map (fragments : List InlineFragment) :
    canonicalFragments fragments = fragments.map InlineFragment.canonical := by
  induction fragments with
  | nil => rfl
  | cons f rest ih => rw [canonicalFragments, ih, List.map_cons]

theorem Field.canonical_eq (f : Field) :
    f.canonical = ⟨f.aliasName.filter (· ≠ ""), f.arguments.canonical,
      f.inlineFragments.map InlineFragment.canonical, f.name,
      f.selections.map Field.canonical⟩ := by
  obtain ⟨aliasName, arguments, inlineFragments, name, selections⟩ := f
  rw [canonical, canonicalFields_eq_map, canonicalFragments_eq_map]

theorem InlineFragment.canonical_eq (f : InlineFragment) :
    f.canonical = ⟨f.directive.map Directive.canonical, f.selections.map Field.canonical,
      f.typeCondition⟩ := by
  obtain ⟨directive, selections, typeCondition⟩ := f
  rw [canonical, canonicalFields_eq_map]

theorem aliasText_eq (aliasName : Option String) :
    aliasText aliasName =
      match aliasName.filter (· ≠ "") with
      | none => ""
      | some a => a ++ ": " := by
  cases aliasName with
  | none => rfl
  | some a =>
    by_cases ha : a = ""
    · subst ha
      rfl
    · have hfilter : (some a).filter (· ≠ "") = some a := by simp [ha]
      rw [hfilter, aliasText, appendAlias]
      simp only [ha, if_false, String.empty_append]

theorem aliasText_filter (aliasName : Option String) :
    aliasText (aliasName.filter (· ≠ "")) = aliasText aliasName := by
  rw [aliasText_eq, aliasText_eq aliasName, Option.filter_filter]
  simp only [Bool.and_self]

theorem directiveText_map_canonical (directive : Option Directive) :
    directiveText (directive.map Directive.canonical) = directiveText directive := by
  cases directive with
  | none => rfl
  | some d =>
    show d.canonical.appendTo _ = d.appendTo _
    rw [Directive.appendTo_eq, Directive.appendTo_eq, Directive.toGraphQL_canonical]

theorem toGraphQL_canonical_selection :
    (∀ f : Field, f.canonical.toGraphQL = f.toGraphQL) ∧
      ∀ f : InlineFragment, f.canonical.toGraphQL = f.toGraphQL := by
  refine Field.nestedInduction ?_ ?_
  · intro f hfields hfragments
    have htexts : f.canonical.selectedTexts = f.selectedTexts := by
      rw [f.canonical_eq, Field.selectedTexts, Field.selectedTexts, List.map_map, List.map_map]
      congr 1
      · exact List.map_congr_left hfields
      · exact List.map_congr_left hfragments
    have hhead : f.canonical.headText = f.headText := by
      rw [f.canonical_eq, Field.headText, Field.headText, aliasText_filter,
        Arguments.text_canonical]
    have hname : f.canonical.name = f.name := by rw [f.canonical_eq]
    rw [Field.toGraphQL_eq, Field.toGraphQL_eq, htexts, hhead, hname]
  · intro f hfields
    have htexts : f.canonical.selections.map Field.toGraphQL =
        f.selections.map Field.toGraphQL := by
      rw [f.canonical_eq, List.map_map]
      exact List.map_congr_left hfields
    have hhead : f.canonical.headText = f.headText := by
      rw [f.canonical_eq, InlineFragment.headText, InlineFragment.headText,
        directiveText_map_canonical]
    rw [InlineFragment.toGraphQL_eq, InlineFragment.toGraphQL_eq, htexts, hhead]

/-- The canonical form of a field has the same text. -/
theorem Field.toGraphQL_canonical (f : Field) : f.canonical.toGraphQL = f.toGraphQL :=
  toGraphQL_canonical_selection.1 f

theorem map_toGraphQL_canonical (fields : List Field) :
    (fields.map Field.canonical).map Field.toGraphQL = fields.map Field.toGraphQL := by
  rw [List.map_map]
  exact List.map_congr_left fun f _ => f.toGraphQL_canonical

/-! ### Definitions -/

/-- The fragment with canonical forms of all that it holds. -/
def Fragment.canonical (f : Fragment) : Fragment :=
  ⟨f.directive.map Directive.canonical, f.name, f.selections.map Field.canonical, f.typeCondition⟩

theorem Fragment.toGraphQL_canonical (f : Fragment) : f.canonical.toGraphQL = f.toGraphQL := by
  rw [toGraphQL_eq, toGraphQL_eq, canonical, directiveText_map_canonical, map_toGraphQL_canonical]

/-- The operation with canonical selections; its variables are declared with types alone. -/
def Operation.canonical (o : Operation) : Operation :=
  ⟨o.kind, o.name, o.selections.map Field.canonical, o.declarations⟩

theorem Operation.toGraphQL_canonical (o : Operation) : o.canonical.toGraphQL = o.toGraphQL := by
  rw [toGraphQL_eq, toGraphQL_eq, canonical, map_toGraphQL_canonical]

end QueryComposer
