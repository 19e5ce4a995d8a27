import QueryComposer.Proofs.Nodes.WellFormed
import QueryComposer.Proofs.Rendering.ValuesApart

/-!
# Nodes are told apart by their texts

Fields are compared by their texts.  On *well-named* trees (`Product.WellNamed`) this never takes
two different fields for one: nodes that can be obtained and have the same text have the same
canonical form (`Obtainable.toGraphQL_eq_iff`).  The parts of a node that are missing leave no trace
in its text, so the proof has to say what tells a part from its absence.  That is the character
after the space: a selection set opens with a brace, a directive with an at sign, and what comes
after a field or inline fragment in a selection set begins with neither (`FollowsItem`).  The
induction is over fields and inline fragments together, since both stand in one row
(`unambiguous_item`).
-/

namespace QueryComposer

/-! ### Well-named nodes -/

/-- The name of a field: a name of the query language, or such a name that spreads a fragment. -/
def IsFieldName (s : String) : Prop := IsName s ∨ ∃ name, IsName name ∧ s = "..." ++ name

namespace Product

/-- The texts of the node itself are names of the query language where it needs them. -/
def NamesWell : Product → Prop
  | directive d => d.WellNamed
  | field f => (f.name ≠ "" → IsFieldName f.name) ∧
      (∀ a ∈ f.aliasName, a ≠ "" → IsName a) ∧ f.arguments.WellNamed
  | inlineFragment f => ∀ type ∈ f.typeCondition, type ≠ "" → IsName type
  | fragment f => IsName f.name ∧ (f.typeCondition ≠ "" → IsName f.typeCondition)
  | operation o => (o.name ≠ "" → IsName o.name) ∧
      ∀ entry ∈ o.declarations.entries, ∃ name, IsName name ∧ entry.1 = "$" ++ name
  | _ => True

/-- The product and every node below it have proper names. -/
def WellNamed (p : Product) : Prop := ∀ q, Below q p → q.NamesWell

/-- A product whose text can be read back: it breaks no rule and has proper names, at any depth. -/
structure IsReadable (p : Product) : Prop where
  wellFormed : p.WellFormed
  wellNamed : p.WellNamed

theorem wellNamed_of_parts {p : Product} (hp : p.NamesWell) (hparts : ∀ q ∈ p.parts, q.WellNamed) :
    p.WellNamed := by
  intro q hq
  cases hq with
  | here => exact hp
  | part hr hq => exact hparts _ hr q hq

theorem IsReadable.part {p q : Product} (h : p.IsReadable) (hq : q ∈ p.parts) : q.IsReadable :=
  ⟨h.wellFormed.part hq, fun r hr => h.wellNamed r (.part hq hr)⟩

theorem IsReadable.isLawful {p : Product} (h : p.IsReadable) : p.IsLawful := h.wellFormed.isLawful

theorem IsReadable.namesWell {p : Product} (h : p.IsReadable) : p.NamesWell := h.wellNamed p .here

end Product

open Product

/-! ### Rows of selected items -/

/-- What stands in a selection set: a field, or an inline fragment. -/
abbrev Item := Field ⊕ InlineFragment

namespace Item

def text : Item → String := Sum.elim Field.toGraphQL InlineFragment.toGraphQL

def canonical : Item → Item := Sum.map Field.canonical InlineFragment.canonical

/-- The items of a selection set: the fields, then the inline fragments. -/
def row (fields : List Field) (fragments : List InlineFragment) : List Item :=
  fields.map .inl ++ fragments.map .inr

theorem map_text_row (fields : List Field) (fragments : List InlineFragment) :
    (row fields fragments).map text =
      fields.map Field.toGraphQL ++ fragments.map InlineFragment.toGraphQL := by
  rw [row, List.map_append, List.map_map, List.map_map]
  rfl

theorem row_canonical_inj {fs gs : List Field} {is js : List InlineFragment}
    (h : (row fs is).map canonical = (row gs js).map canonical) :
    fs.map Field.canonical = gs.map Field.canonical ∧
      is.map InlineFragment.canonical = js.map InlineFragment.canonical := by
  have hrow : ∀ fs is, (row fs is).map canonical =
      row (fs.map Field.canonical) (is.map InlineFragment.canonical) := by
    intro fs is
    simp only [row, List.map_append, List.map_map]
    rfl
  have hfields : ∀ fs is, (row fs is).filterMap Sum.getLeft? = fs := by
    intro fs is
    simp [row, List.filterMap_append, List.filterMap_map, Function.comp_def]
  have hfragments : ∀ fs is, (row fs is).filterMap Sum.getRight? = is := by
    intro fs is
    simp [row, List.filterMap_append, List.filterMap_map, Function.comp_def]
  rw [hrow, hrow] at h
  constructor
  · rw [← hfields (fs.map _) (is.map _), h, hfields]
  · rw [← hfragments (fs.map _) (is.map _), h, hfragments]

/-- An item as it can stand in a selection set: readable, and named if it is a field. -/
def IsSelected : Item → Prop
  | .inl f => f.name ≠ "" ∧ (Product.field f).IsReadable
  | .inr i => (Product.inlineFragment i).IsReadable

theorem forall_row {P : Item → Prop} {fields : List Field} {fragments : List InlineFragment}
    (hfields : ∀ f ∈ fields, P (.inl f)) (hfragments : ∀ i ∈ fragments, P (.inr i)) :
    ∀ x ∈ row fields fragments, P x := by
  intro x hx
  rcases List.mem_append.mp hx with hx | hx
  · obtain ⟨f, hf, rfl⟩ := List.mem_map.mp hx
    exact hfields f hf
  · obtain ⟨i, hi, rfl⟩ := List.mem_map.mp hx
    exact hfragments i hi

theorem isSelected_row {p : Product} (hp : p.IsReadable) {fields : List Field}
    {fragments : List InlineFragment} (hnamed : AllNamed fields)
    (hfields : ∀ f ∈ fields, Product.field f ∈ p.parts)
    (hfragments : ∀ i ∈ fragments, Product.inlineFragment i ∈ p.parts) :
    ∀ x ∈ row fields fragments, IsSelected x :=
  forall_row (fun f hf => ⟨hnamed f hf, hp.part (hfields f hf)⟩)
    fun i hi => hp.part (hfragments i hi)

end Item

/-- A character with which an item can begin, or of which its first word can consist. -/
def isHeadChar (c : Char) : Bool := isNameChar c || c == '.'

theorem isHeadChar_of_isNameChar {c : Char} (h : isNameChar c = true) : isHeadChar c = true := by
  rw [isHeadChar, h, Bool.true_or]

/-- The rest may follow an item: nothing, or a space and then neither a selection set nor a
directive. -/
def FollowsItem (r : List Char) : Prop :=
  r = [] ∨ ∃ c cs, r = ' ' :: c :: cs ∧ c ≠ '\x7b' ∧ c ≠ '@'

/-- The rest may follow the head of an item: nothing, or a space and then no directive. -/
def FollowsHead (r : List Char) : Prop := r = [] ∨ ∃ c cs, r = ' ' :: c :: cs ∧ c ≠ '@'

theorem FollowsHead.leaves {p : Char → Bool} (hp : p ' ' = false) {r : List Char}
    (h : FollowsHead r) : Leaves p r := by
  rcases h with rfl | ⟨c, cs, rfl, -⟩
  · exact leaves_nil p
  · exact leaves_cons _ hp

theorem FollowsHead.head_ne {c : Char} (hc : c ≠ ' ') {r : List Char} (h : FollowsHead r) :
    r.head? ≠ some c := by
  rcases h with rfl | ⟨d, cs, rfl, -⟩
  · exact fun heq => by cases heq
  · exact fun heq => hc (Option.some.inj heq).symm

/-- The items of a selection set are separated by spaces; a closing brace after a space ends it. -/
theorem row_items {P : Item → Prop}
    (hhead : ∀ {x}, P x → ∃ c cs, x.text.toList = c :: cs ∧ isHeadChar c = true) :
    Row P Item.text " " FollowsItem (fun r => ∃ cs, r = ' ' :: '\x7d' :: cs) where
  follows_of_ends := by
    rintro r ⟨cs, rfl⟩
    exact .inr ⟨'\x7d', cs, rfl, by decide, by decide⟩
  follows_separator := by
    intro x hx r
    obtain ⟨c, cs, hcs, hc⟩ := hhead hx
    refine .inr ⟨c, cs ++ r, by rw [hcs]; rfl, ?_, ?_⟩ <;>
    · rintro rfl
      exact absurd hc (by decide)
  not_ends_separator := by
    rintro x hx r ⟨cs, h⟩
    obtain ⟨c, cs', hcs, hc⟩ := hhead hx
    rw [hcs] at h
    obtain rfl : c = '\x7d' := (List.cons.inj (List.cons.inj h).2).1
    exact absurd hc (by decide)
  not_ends_text := by
    rintro x hx r ⟨cs, h⟩
    obtain ⟨c, cs', hcs, hc⟩ := hhead hx
    rw [hcs] at h
    obtain rfl : c = ' ' := (List.cons.inj h).1
    exact absurd hc (by decide)

/-! ### Selection sets -/

theorem followsHead_selectionText {texts : List String} {r : List Char} (hr : FollowsItem r) :
    FollowsHead ((selectionText " \x7b " texts).toList ++ r) := by
  unfold selectionText
  split
  · rcases hr with rfl | ⟨c, cs, rfl, -, hc⟩
    · exact .inl rfl
    · exact .inr ⟨c, cs, rfl, hc⟩
  · simp only [String.toList_append, List.append_assoc]
    exact .inr ⟨'\x7b', _, rfl, by decide⟩

/-- Selection sets are told apart if their items are, where what follows does not look like the
opening of a selection set. -/
theorem selectionText_append_inj {P : Item → Prop} {opening : String} {xs ys : List Item}
    (hhead : ∀ {x}, P x → ∃ c cs, x.text.toList = c :: cs ∧ isHeadChar c = true)
    (hxs : ∀ x ∈ xs, P x) (hys : ∀ y ∈ ys, P y)
    (hitems : ∀ x ∈ xs, ∀ y ∈ ys, Unambiguous Item.text Item.canonical FollowsItem x y)
    {r s : List Char} (hr : ∀ cs, opening.toList ++ cs ≠ r) (hs : ∀ cs, opening.toList ++ cs ≠ s)
    (h : (selectionText opening (xs.map Item.text)).toList ++ r =
      (selectionText opening (ys.map Item.text)).toList ++ s) :
    xs.map Item.canonical = ys.map Item.canonical ∧ r = s := by
  simp only [selectionText, List.map_eq_nil_iff] at h
  by_cases hxs' : xs = [] <;> by_cases hys' : ys = []
  · rw [if_pos hxs', if_pos hys'] at h
    rw [hxs', hys']
    exact ⟨rfl, h⟩
  · rw [if_pos hxs', if_neg hys'] at h
    simp only [String.toList_append, List.append_assoc] at h
    exact absurd h.symm (hr _)
  · rw [if_neg hxs', if_pos hys'] at h
    simp only [String.toList_append, List.append_assoc] at h
    exact absurd h (hs _)
  · rw [if_neg hxs', if_neg hys'] at h
    simp only [String.toList_append, List.append_assoc] at h
    obtain ⟨hviews, hrest⟩ := (row_items hhead).intercalate_append_inj hxs hys hitems ⟨r, rfl⟩
      ⟨s, rfl⟩ (List.append_cancel_left h)
    exact ⟨hviews, (List.cons.inj (List.cons.inj hrest).2).2⟩

theorem FollowsItem.ne_opening {r : List Char} (hr : FollowsItem r) :
    (∀ cs, " \x7b ".toList ++ cs ≠ r) ∧ ∀ cs, "\x7b ".toList ++ cs ≠ r := by
  rcases hr with rfl | ⟨c, cs, rfl, hc, -⟩
  · exact ⟨fun cs h => absurd h (List.cons_ne_nil _ _), fun cs h => absurd h (List.cons_ne_nil _ _)⟩
  · constructor
    · intro cs h
      exact hc (List.cons.inj (List.cons.inj h).2).1.symm
    · intro cs h
      exact absurd (List.cons.inj h).1 (by decide)

/-! ### Heads of inline fragments -/

theorem directiveText_append_inj {d e : Option Directive}
    (hd : ∀ x ∈ d, x.IsLawful ∧ x.WellNamed) (he : ∀ x ∈ e, x.IsLawful ∧ x.WellNamed)
    {r s : List Char} (hr : FollowsHead r) (hs : FollowsHead s)
    (h : (directiveText d).toList ++ r = (directiveText e).toList ++ s) :
    d.map Directive.canonical = e.map Directive.canonical ∧ r = s := by
  have htext : ∀ (x : Directive) (r : List Char), ∃ cs,
      (directiveText (some x)).toList ++ r = ' ' :: (x.toGraphQL.toList ++ r) ∧
        x.toGraphQL.toList ++ r = '@' :: cs := by
    intro x r
    refine ⟨x.name.toList ++ (x.arguments.text.toList ++ r), ?_, ?_⟩
    · show ((x.appendTo ("" ++ " ")).toList ++ r) = _
      rw [Directive.appendTo_eq, String.toList_append]
      rfl
    · rw [Directive.toGraphQL_eq]
      simp only [String.toList_append, List.append_assoc]
      rfl
  -- What follows a head does not look like a directive, so a directive is not taken for none.
  have habsent : ∀ {r : List Char} (x : Directive) (s : List Char), FollowsHead r →
      r ≠ (directiveText (some x)).toList ++ s := by
    rintro r x s hr rfl
    obtain ⟨cs, hspace, hat⟩ := htext x s
    rw [hspace, hat] at hr
    rcases hr with hr | ⟨c, cs', hr, hc⟩
    · cases hr
    · exact hc (List.cons.inj (List.cons.inj hr).2).1.symm
  cases d with
  | none =>
    cases e with
    | none => exact ⟨rfl, h⟩
    | some y => exact absurd h (habsent y s hr)
  | some x =>
    cases e with
    | none => exact absurd h.symm (habsent x r hs)
    | some y =>
      rw [(htext x r).choose_spec.1, (htext y s).choose_spec.1] at h
      obtain ⟨hx, hx'⟩ := hd x rfl
      obtain ⟨hy, hy'⟩ := he y rfl
      obtain ⟨hcanonical, hrest⟩ := Directive.toGraphQL_append_inj hx hx' hy hy'
        (hr.leaves (by decide)) (hs.leaves (by decide)) (hr.head_ne (by decide))
        (hs.head_ne (by decide)) (List.cons.inj h).2
      exact ⟨congrArg some hcanonical, hrest⟩

/-- Type conditions that may be absent are told apart, where an absent one is followed by a
directive. -/
theorem typeConditionText_append_inj {a b : Option String} (ha : ∀ x ∈ a, IsName x)
    (hb : ∀ x ∈ b, IsName x) {r s : List Char} (hr : Leaves isNameChar r)
    (hs : Leaves isNameChar s) (hr' : a = none → ∃ cs, r = ' ' :: '@' :: cs)
    (hs' : b = none → ∃ cs, s = ' ' :: '@' :: cs)
    (h : (typeConditionText a).toList ++ r = (typeConditionText b).toList ++ s) :
    a = b ∧ r = s := by
  have htext : ∀ (type : String) (r : List Char),
      (typeConditionText (some type)).toList ++ r = " on ".toList ++ (type.toList ++ r) := by
    intro type r
    simp [typeConditionText, appendTypeCondition, String.toList_append]
  -- After the space comes the `o` of the condition or the at sign of the directive.
  cases a with
  | none =>
    cases b with
    | none => exact ⟨rfl, h⟩
    | some y =>
      obtain ⟨cs, rfl⟩ := hr' rfl
      rw [htext] at h
      exact absurd (List.cons.inj (List.cons.inj h).2).1 (by decide)
  | some x =>
    rw [htext] at h
    cases b with
    | none =>
      obtain ⟨cs, rfl⟩ := hs' rfl
      exact absurd (List.cons.inj (List.cons.inj h).2).1 (by decide)
    | some y =>
      rw [htext] at h
      obtain ⟨hxy, hrest⟩ := append_inj_of_leaves (ha x rfl).chars (hb y rfl).chars hr hs
        (List.append_cancel_left h)
      exact ⟨congrArg some (String.toList_injective hxy), hrest⟩

/-! ### Heads of fields -/

theorem isHeadChar_of_mem_dots : ∀ c ∈ "...".toList, isHeadChar c = true :=
  List.all_eq_true.mp rfl

namespace IsFieldName

variable {s : String}

theorem chars (h : IsFieldName s) : ∀ c ∈ s.toList, isHeadChar c = true := by
  rcases h with h | ⟨name, h, rfl⟩
  · exact fun c hc => isHeadChar_of_isNameChar (h.chars c hc)
  · intro c hc
    rw [String.toList_append] at hc
    rcases List.mem_append.mp hc with hc | hc
    · exact isHeadChar_of_mem_dots c hc
    · exact isHeadChar_of_isNameChar (h.chars c hc)

/-- A field has a name that is not the mark of inline fragments alone. -/
theorem ne_dots (h : IsFieldName s) : s.toList ≠ "...".toList := by
  rcases h with h | ⟨name, h, rfl⟩
  · intro hs
    obtain ⟨c, cs, hcs, hstart⟩ := h.start
    rw [hs] at hcs
    rw [← (List.cons.inj hcs).1] at hstart
    exact absurd hstart (by decide)
  · intro hs
    rw [String.toList_append] at hs
    exact h.ne_empty (String.toList_eq_nil_iff.mp (List.append_right_eq_self.mp hs))

end IsFieldName

theorem toList_aliasText (aliasName : Option String) :
    (aliasText aliasName).toList =
      match aliasName.filter (· ≠ "") with
      | none => []
      | some a => a.toList ++ [':', ' '] := by
  rw [aliasText_eq]
  cases aliasName.filter (· ≠ "") with
  | none => rfl
  | some a =>
    rw [String.toList_append]
    rfl

/-- The first words of two fields are told apart: the alias, if there is one, and the name. -/
theorem head_append_inj {a b : Option String} {m n : String} {r s : List Char}
    (ha : ∀ x ∈ a, x ≠ "" → IsName x) (hb : ∀ x ∈ b, x ≠ "" → IsName x) (hm : IsFieldName m)
    (hn : IsFieldName n) (hr : ∀ p : Char → Bool, p '(' = false → p ' ' = false → Leaves p r)
    (hs : ∀ p : Char → Bool, p '(' = false → p ' ' = false → Leaves p s)
    (h : (aliasText a).toList ++ (m.toList ++ r) = (aliasText b).toList ++ (n.toList ++ s)) :
    a.filter (· ≠ "") = b.filter (· ≠ "") ∧ m = n ∧ r = s := by
  have hname : ∀ {a : Option String}, (∀ x ∈ a, x ≠ "" → IsName x) →
      ∀ x ∈ a.filter (· ≠ ""), IsName x := by
    intro a ha x hx
    obtain ⟨hx, hne⟩ := Option.filter_eq_some_iff.mp hx
    exact ha x hx (of_decide_eq_true hne)
  -- An alias is followed by a colon, a name never is.
  have halias : ∀ {x m : String} {r t : List Char}, IsName x → IsFieldName m →
      (∀ p : Char → Bool, p '(' = false → p ' ' = false → Leaves p r) →
      x.toList ++ ':' :: t ≠ m.toList ++ r := by
    intro x m r t hx hm hr h
    obtain ⟨-, hrest⟩ := append_inj_of_leaves
      (fun c hc => isHeadChar_of_isNameChar (hx.chars c hc)) hm.chars
      (leaves_cons t (by decide)) (hr isHeadChar (by decide) (by decide)) h
    have hcolon := hr (· == ':') (by decide) (by decide) ':' (by rw [← hrest]; rfl)
    exact absurd hcolon (by decide)
  have hsame : ∀ {m n : String} {r s : List Char}, IsFieldName m → IsFieldName n →
      (∀ p : Char → Bool, p '(' = false → p ' ' = false → Leaves p r) →
      (∀ p : Char → Bool, p '(' = false → p ' ' = false → Leaves p s) →
      m.toList ++ r = n.toList ++ s → m = n ∧ r = s := by
    intro m n r s hm hn hr hs h
    obtain ⟨hmn, hrest⟩ := append_inj_of_leaves hm.chars hn.chars
      (hr isHeadChar (by decide) (by decide)) (hs isHeadChar (by decide) (by decide)) h
    exact ⟨String.toList_injective hmn, hrest⟩
  have ha' := hname ha
  have hb' := hname hb
  rw [toList_aliasText, toList_aliasText] at h
  cases hx : a.filter (· ≠ "") with
  | none =>
    cases hy : b.filter (· ≠ "") with
    | none =>
      simp only [hx, hy, List.nil_append] at h
      exact ⟨rfl, hsame hm hn hr hs h⟩
    | some y =>
      simp only [hx, hy, List.nil_append, List.append_assoc, List.cons_append] at h
      exact absurd h.symm (halias (hb' y hy) hm hr)
  | some x =>
    cases hy : b.filter (· ≠ "") with
    | none =>
      simp only [hx, hy, List.nil_append, List.append_assoc, List.cons_append] at h
      exact absurd h (halias (ha' x hx) hn hs)
    | some y =>
      simp only [hx, hy, List.append_assoc] at h
      obtain ⟨hxy, hrest⟩ := append_inj_of_leaves (ha' x hx).chars (hb' y hy).chars
        (leaves_cons _ (by decide)) (leaves_cons _ (by decide)) h
      obtain ⟨hmn, hrest⟩ := hsame hm hn hr hs (List.cons.inj (List.cons.inj hrest).2).2
      exact ⟨congrArg some (String.toList_injective hxy), hmn, hrest⟩

/-! ### Fields -/

theorem Field.toList_named {f : Field} (hname : f.name ≠ "") :
    f.toGraphQL.toList = (aliasText f.aliasName).toList ++ (f.name.toList ++
      (f.arguments.text.toList ++ (selectionText " \x7b "
        ((Item.row f.selections f.inlineFragments).map Item.text)).toList)) := by
  rw [Field.toGraphQL_eq, Field.headText, if_neg hname, if_neg hname, Item.map_text_row]
  simp only [Field.selectedTexts, String.toList_append, List.append_assoc]

/-- After the name of a field come its arguments or what follows a head. -/
theorem leaves_arguments {p : Char → Bool} (hparen : p '(' = false) (hspace : p ' ' = false)
    (arguments : Arguments) {r : List Char} (hr : FollowsHead r) :
    Leaves p (arguments.text.toList ++ r) := by
  rw [Arguments.toList_text]
  split
  · exact hr.leaves hspace
  · exact leaves_cons _ hparen

/-- The text of a named field begins with a word that is not the mark of inline fragments. -/
theorem Field.exists_word {f : Field} (hname : f.name ≠ "") (hf : (Product.field f).IsReadable) :
    ∃ word tail, f.toGraphQL.toList = word ++ tail ∧ word ≠ [] ∧
      (∀ c ∈ word, isHeadChar c = true) ∧ word ≠ "...".toList ∧
      ∀ r, FollowsItem r → Leaves isHeadChar (tail ++ r) := by
  obtain ⟨hfield, halias, -⟩ := hf.namesWell
  rw [f.toList_named hname, toList_aliasText]
  cases hx : f.aliasName.filter (· ≠ "") with
  | none =>
    refine ⟨f.name.toList, _, rfl, mt String.toList_eq_nil_iff.mp hname, (hfield hname).chars,
      (hfield hname).ne_dots, fun r hr => ?_⟩
    rw [List.append_assoc]
    exact leaves_arguments (by decide) (by decide) _ (followsHead_selectionText hr)
  | some x =>
    obtain ⟨hx, hne⟩ := Option.filter_eq_some_iff.mp hx
    have hx' : IsName x := halias x hx (of_decide_eq_true hne)
    refine ⟨x.toList, ':' :: ' ' :: _, by rw [List.append_assoc]; rfl,
      mt String.toList_eq_nil_iff.mp hx'.ne_empty, (IsFieldName.chars (.inl hx')),
      IsFieldName.ne_dots (.inl hx'), fun r _ => leaves_cons _ (by decide)⟩

/-! ### Inline fragments -/

theorem InlineFragment.toList_eq (f : InlineFragment) :
    f.toGraphQL.toList = "...".toList ++ ((typeConditionText f.typeCondition).toList ++
      ((directiveText f.directive).toList ++
        (selectionText " \x7b " ((Item.row f.selections []).map Item.text)).toList)) := by
  rw [InlineFragment.toGraphQL_eq, InlineFragment.headText, Item.map_text_row, List.map_nil,
    List.append_nil]
  simp only [String.toList_append, List.append_assoc]

/-- A directive, or what follows a head without one. -/
theorem leaves_directive {p : Char → Bool} (hspace : p ' ' = false) (directive : Option Directive)
    {r : List Char} (hr : FollowsHead r) : Leaves p ((directiveText directive).toList ++ r) := by
  cases directive with
  | none => exact hr.leaves hspace
  | some d =>
    rw [directiveText, appendDirective, Directive.appendTo_eq, String.toList_append]
    exact leaves_cons _ hspace

theorem InlineFragment.leaves_dots {p : Char → Bool} (hspace : p ' ' = false) (f : InlineFragment)
    {r : List Char} (hr : FollowsHead r) :
    Leaves p ((typeConditionText f.typeCondition).toList ++
      ((directiveText f.directive).toList ++ r)) := by
  cases f.typeCondition with
  | none => exact leaves_directive hspace f.directive hr
  | some type =>
    rw [typeConditionText, appendTypeCondition, String.toList_append, String.toList_append]
    exact leaves_cons _ hspace

/-! ### Items -/

theorem Item.IsSelected.exists_head {x : Item} (hx : x.IsSelected) :
    ∃ c cs, x.text.toList = c :: cs ∧ isHeadChar c = true := by
  cases x with
  | inl f =>
    obtain ⟨word, tail, htext, hne, hchars, -⟩ := f.exists_word hx.1 hx.2
    obtain ⟨c, cs, rfl⟩ := List.exists_cons_of_ne_nil hne
    exact ⟨c, cs ++ tail, htext, hchars c (List.mem_cons_self ..)⟩
  | inr i => exact ⟨'.', _, i.toList_eq, by decide⟩

theorem field_append_ne {f : Field} {i : InlineFragment} (hf : Item.IsSelected (.inl f))
    {r s : List Char} (hr : FollowsItem r) (hs : FollowsItem s) :
    f.toGraphQL.toList ++ r ≠ i.toGraphQL.toList ++ s := by
  intro h
  obtain ⟨word, tail, htext, -, hchars, hdots, htail⟩ := f.exists_word hf.1 hf.2
  rw [htext, i.toList_eq] at h
  simp only [List.append_assoc] at h
  have hset := @followsHead_selectionText ((Item.row i.selections []).map Item.text) s hs
  have hspace := @InlineFragment.leaves_dots isHeadChar (by decide) i _ hset
  exact hdots (append_inj_of_leaves hchars isHeadChar_of_mem_dots (htail r hr) hspace h).1

theorem Product.IsReadable.directive {p : Product} (hp : p.IsReadable)
    {directive : Option Directive} (hdirective : ∀ d ∈ directive, Product.directive d ∈ p.parts) :
    ∀ d ∈ directive, d.IsLawful ∧ d.WellNamed :=
  fun d hd => ⟨(hp.part (hdirective d hd)).isLawful, (hp.part (hdirective d hd)).namesWell⟩

theorem isSelected_field {f : Field} (hf : (Product.field f).IsReadable) :
    ∀ x ∈ Item.row f.selections f.inlineFragments, x.IsSelected :=
  Item.isSelected_row hf (Field.IsLawful.selections_named hf.isLawful)
    (fun g hg => by simp [Product.parts, hg]) (fun i hi => by simp [Product.parts, hi])

theorem isSelected_inlineFragment {f : InlineFragment}
    (hf : (Product.inlineFragment f).IsReadable) :
    ∀ x ∈ Item.row f.selections [], x.IsSelected :=
  Item.isSelected_row hf (InlineFragment.IsLawful.selections_named hf.isLawful)
    (fun g hg => by simp [Product.parts, hg]) (fun i hi => absurd hi List.not_mem_nil)

/-- Named fields are told apart if the items below them are. -/
theorem Field.unambiguous_of_items {f g : Field} (hf : Item.IsSelected (.inl f))
    (hg : Item.IsSelected (.inl g))
    (hitems : ∀ x ∈ Item.row f.selections f.inlineFragments,
      ∀ y ∈ Item.row g.selections g.inlineFragments,
        Unambiguous Item.text Item.canonical FollowsItem x y) :
    Unambiguous Field.toGraphQL Field.canonical FollowsItem f g := by
  intro r s hr hs h
  obtain ⟨hfname, hf⟩ := hf
  obtain ⟨hgname, hg⟩ := hg
  obtain ⟨hfield, halias, harguments⟩ := hf.namesWell
  obtain ⟨hfield', halias', harguments'⟩ := hg.namesWell
  have hfset := @followsHead_selectionText ((Item.row f.selections f.inlineFragments).map Item.text)
  have hgset := @followsHead_selectionText ((Item.row g.selections g.inlineFragments).map Item.text)
  rw [f.toList_named hfname, g.toList_named hgname] at h
  simp only [List.append_assoc] at h
  -- The parts are taken off the front: alias and name, arguments, selection set.
  obtain ⟨haliases, hnames, h⟩ := head_append_inj halias halias' (hfield hfname) (hfield' hgname)
    (fun p hparen hspace => leaves_arguments hparen hspace _ (hfset hr))
    (fun p hparen hspace => leaves_arguments hparen hspace _ (hgset hs)) h
  obtain ⟨hargs, h⟩ := Arguments.text_append_inj (Field.IsLawful.literals hf.isLawful) harguments
    (Field.IsLawful.literals hg.isLawful) harguments' ((hfset hr).head_ne (by decide))
    ((hgset hs).head_ne (by decide)) h
  obtain ⟨hviews, hrest⟩ := selectionText_append_inj Item.IsSelected.exists_head
    (isSelected_field hf) (isSelected_field hg) hitems hr.ne_opening.1 hs.ne_opening.1 h
  obtain ⟨hselections, hfragments⟩ := Item.row_canonical_inj hviews
  rw [f.canonical_eq, g.canonical_eq, haliases, hargs, hfragments, hnames, hselections]
  exact ⟨rfl, hrest⟩

theorem InlineFragment.unambiguous_of_items {f g : InlineFragment} (hf : Item.IsSelected (.inr f))
    (hg : Item.IsSelected (.inr g))
    (hitems : ∀ x ∈ Item.row f.selections [], ∀ y ∈ Item.row g.selections [],
      Unambiguous Item.text Item.canonical FollowsItem x y) :
    Unambiguous InlineFragment.toGraphQL InlineFragment.canonical FollowsItem f g := by
  intro r s hr hs h
  -- Without a type condition there is a directive.
  have hdirective : ∀ {f : InlineFragment} {t : List Char}, Item.IsSelected (.inr f) →
      f.typeCondition = none →
      ∃ cs, (directiveText f.directive).toList ++ t = ' ' :: '@' :: cs := by
    intro f t hf hnone
    have hcondition := (InlineFragment.IsLawful.condition hf.isLawful).resolve_right (absurd hnone)
    obtain ⟨d, hd⟩ := Option.ne_none_iff_exists'.mp hcondition
    rw [hd, directiveText, appendDirective, Directive.appendTo_eq, Directive.toGraphQL_eq]
    simp only [String.toList_append, List.append_assoc]
    exact ⟨_, rfl⟩
  have htype : ∀ {f : InlineFragment}, Item.IsSelected (.inr f) →
      ∀ type ∈ f.typeCondition, IsName type := by
    intro f hf type hmem
    refine hf.namesWell type hmem ?_
    rintro rfl
    exact InlineFragment.IsLawful.typeCondition_ne hf.isLawful hmem
  have hparts : ∀ {f : InlineFragment}, ∀ d ∈ f.directive,
      Product.directive d ∈ (Product.inlineFragment f).parts := by
    intro f d hd
    simp [Product.parts, Product.ofDirective?, Option.mem_def.mp hd]
  have hfset := @followsHead_selectionText ((Item.row f.selections []).map Item.text)
  have hgset := @followsHead_selectionText ((Item.row g.selections []).map Item.text)
  rw [f.toList_eq, g.toList_eq] at h
  simp only [List.append_assoc] at h
  -- The parts are taken off the front: type condition, directive, selection set.
  obtain ⟨htypes, h⟩ := typeConditionText_append_inj (htype hf) (htype hg)
    (leaves_directive (by decide) _ (hfset hr)) (leaves_directive (by decide) _ (hgset hs))
    (hdirective hf) (hdirective hg) (List.append_cancel_left h)
  obtain ⟨hdirectives, h⟩ := directiveText_append_inj (Product.IsReadable.directive hf hparts)
    (Product.IsReadable.directive hg hparts) (hfset hr) (hgset hs) h
  obtain ⟨hviews, hrest⟩ := selectionText_append_inj Item.IsSelected.exists_head
    (isSelected_inlineFragment hf) (isSelected_inlineFragment hg) hitems hr.ne_opening.1
    hs.ne_opening.1 h
  rw [f.canonical_eq, g.canonical_eq, htypes, hdirectives, (Item.row_canonical_inj hviews).1]
  exact ⟨rfl, hrest⟩

/-- **The items of selection sets are told apart by their texts.**  The induction is over fields and
inline fragments at once. -/
theorem unambiguous_item : ∀ x : Item, x.IsSelected → ∀ y : Item, y.IsSelected →
    Unambiguous Item.text Item.canonical FollowsItem x y := by
  have hitems : (∀ f : Field, Item.IsSelected (.inl f) → ∀ y : Item, y.IsSelected →
      Unambiguous Item.text Item.canonical FollowsItem (.inl f) y) ∧
      ∀ i : InlineFragment, Item.IsSelected (.inr i) → ∀ y : Item, y.IsSelected →
        Unambiguous Item.text Item.canonical FollowsItem (.inr i) y := by
    -- The first word tells a field from an inline fragment; within a sort the items below decide.
    refine Field.nestedInduction ?_ ?_
    · intro f hfields hfragments hf y hy r s hr hs h
      cases y with
      | inl g =>
        have hrow : ∀ x ∈ Item.row f.selections f.inlineFragments, x.IsSelected →
            ∀ y : Item, y.IsSelected → Unambiguous Item.text Item.canonical FollowsItem x y :=
          Item.forall_row hfields hfragments
        obtain ⟨hview, hrest⟩ := Field.unambiguous_of_items hf hy
          (fun x hx y hy' => hrow x hx (isSelected_field hf.2 x hx) y
            (isSelected_field hy.2 y hy')) hr hs h
        exact ⟨congrArg Sum.inl hview, hrest⟩
      | inr i => exact absurd h (field_append_ne hf hr hs)
    · intro i hfields hi y hy r s hr hs h
      cases y with
      | inl g => exact absurd h.symm (field_append_ne hy hs hr)
      | inr j =>
        have hrow : ∀ x ∈ Item.row i.selections [], x.IsSelected →
            ∀ y : Item, y.IsSelected → Unambiguous Item.text Item.canonical FollowsItem x y :=
          Item.forall_row hfields fun _ h => absurd h List.not_mem_nil
        obtain ⟨hview, hrest⟩ := InlineFragment.unambiguous_of_items hi hy
          (fun x hx y hy' => hrow x hx (isSelected_inlineFragment hi x hx) y
            (isSelected_inlineFragment hy y hy')) hr hs h
        exact ⟨congrArg Sum.inr hview, hrest⟩
  rintro (f | i)
  · exact hitems.1 f
  · exact hitems.2 i

/-! ### Whole texts -/

theorem Field.toList_root {f : Field} (hname : f.name = "") :
    f.toGraphQL.toList =
      (selectionText "\x7b " ((Item.row f.selections f.inlineFragments).map Item.text)).toList := by
  rw [Field.toGraphQL_eq, Field.headText, if_pos hname, if_pos hname, Item.map_text_row,
    String.empty_append]
  rfl

theorem Field.root_ne_named {f g : Field} (hf : f.name = "") (hg : Item.IsSelected (.inl g)) :
    f.toGraphQL ≠ g.toGraphQL := by
  intro h
  obtain ⟨c, cs, hcs, hc⟩ := hg.exists_head
  have htext : f.toGraphQL.toList = c :: cs := h ▸ hcs
  rw [Field.toList_root hf, selectionText] at htext
  split at htext
  · cases htext
  · simp only [String.toList_append, List.append_assoc] at htext
    rw [← (List.cons.inj htext).1] at hc
    exact absurd hc (by decide)

theorem followsItem_nil : FollowsItem [] := .inl rfl

/-- The text of a field determines its canonical form. -/
theorem Field.canonical_eq_of_toGraphQL_eq {f g : Field} (hf : (Product.field f).IsReadable)
    (hg : (Product.field g).IsReadable) (h : f.toGraphQL = g.toGraphQL) :
    f.canonical = g.canonical := by
  by_cases hfname : f.name = "" <;> by_cases hgname : g.name = ""
  · -- Root fields have nothing but their selection sets.
    have hitems := selectionText_append_inj Item.IsSelected.exists_head (isSelected_field hf)
      (isSelected_field hg) (fun x hx y hy => unambiguous_item x (isSelected_field hf x hx) y
        (isSelected_field hg y hy)) followsItem_nil.ne_opening.2 followsItem_nil.ne_opening.2
      (by rw [← Field.toList_root hfname, ← Field.toList_root hgname, h])
    obtain ⟨hselections, hfragments⟩ := Item.row_canonical_inj hitems.1
    have halias : ∀ {f : Field}, (Product.field f).IsReadable → f.name = "" →
        f.aliasName.filter (· ≠ "") = none := by
      intro f hf hname
      have hempty : f.aliasName.getD "" = "" :=
        Field.IsLawful.aliasName_of_unnamed hf.isLawful hname
      rw [Option.filter_eq_none_iff]
      intro a ha
      rw [ha] at hempty
      simp [show a = "" from hempty]
    have harguments : f.arguments.canonical = g.arguments.canonical := by
      rw [Arguments.canonical, Arguments.canonical]
      congr 1
      rw [Field.IsLawful.arguments_of_unnamed hf.isLawful hfname,
        Field.IsLawful.arguments_of_unnamed hg.isLawful hgname]
    rw [f.canonical_eq, g.canonical_eq, halias hf hfname, halias hg hgname, harguments,
      hselections, hfragments, hfname, hgname]
  -- The two sorts are told apart, and named fields are items.
  · exact absurd h (Field.root_ne_named hfname ⟨hgname, hg⟩)
  · exact absurd h.symm (Field.root_ne_named hgname ⟨hfname, hf⟩)
  · have htexts : Item.text (.inl f) = Item.text (.inl g) := h
    have hitem := unambiguous_item (.inl f) ⟨hfname, hf⟩ (.inl g) ⟨hgname, hg⟩ followsItem_nil
      followsItem_nil (by rw [htexts])
    exact Sum.inl.inj hitem.1

theorem isSelected_selections {p : Product} (hp : p.IsReadable) {fields : List Field}
    (hnamed : AllNamed fields) (hfields : ∀ f ∈ fields, Product.field f ∈ p.parts) :
    ∀ x ∈ Item.row fields [], x.IsSelected :=
  Item.isSelected_row hp hnamed hfields fun _ h => absurd h List.not_mem_nil

theorem Fragment.canonical_eq_of_toGraphQL_eq {f g : Fragment}
    (hf : (Product.fragment f).IsReadable) (hg : (Product.fragment g).IsReadable)
    (h : f.toGraphQL = g.toGraphQL) : f.canonical = g.canonical := by
  have htext : ∀ f : Fragment, f.toGraphQL.toList = "fragment ".toList ++ (f.name.toList ++
      (" on ".toList ++ (f.typeCondition.toList ++ ((directiveText f.directive).toList ++
        ((selectionText " \x7b " ((Item.row f.selections []).map Item.text)).toList ++ []))))) := by
    intro f
    rw [f.toGraphQL_eq, Item.map_text_row, List.map_nil, List.append_nil]
    simp only [String.toList_append, List.append_assoc, List.append_nil]
  have hset := fun texts => @followsHead_selectionText texts [] followsItem_nil
  have hselected : ∀ {f : Fragment}, (Product.fragment f).IsReadable →
      ∀ x ∈ Item.row f.selections [], x.IsSelected := fun hf =>
    isSelected_selections hf (Fragment.IsLawful.selections_named hf.isLawful)
      fun g hg => by simp [Product.parts, hg]
  have htype : ∀ {f : Fragment}, (Product.fragment f).IsReadable → IsName f.typeCondition :=
    fun hf => hf.namesWell.2 (Fragment.IsLawful.typeCondition_ne hf.isLawful)
  have hparts : ∀ {f : Fragment}, ∀ d ∈ f.directive,
      Product.directive d ∈ (Product.fragment f).parts := by
    intro f d hd
    simp [Product.parts, Product.ofDirective?, Option.mem_def.mp hd]
  have h' := congrArg String.toList h
  rw [htext, htext] at h'
  obtain ⟨hname, h'⟩ := append_inj_of_leaves hf.namesWell.1.chars hg.namesWell.1.chars
    (leaves_cons _ (by decide)) (leaves_cons _ (by decide)) (List.append_cancel_left h')
  obtain ⟨htypes, h'⟩ := append_inj_of_leaves (htype hf).chars (htype hg).chars
    (leaves_directive (by decide) _ (hset _)) (leaves_directive (by decide) _ (hset _))
    (List.append_cancel_left (show " on ".toList ++ _ = " on ".toList ++ _ from h'))
  obtain ⟨hdirectives, h'⟩ := directiveText_append_inj (hf.directive hparts) (hg.directive hparts)
    (hset _) (hset _) h'
  obtain ⟨hviews, -⟩ := selectionText_append_inj Item.IsSelected.exists_head (hselected hf)
    (hselected hg) (fun x hx y hy => unambiguous_item x (hselected hf x hx) y (hselected hg y hy))
    followsItem_nil.ne_opening.1 followsItem_nil.ne_opening.1 h'
  rw [Fragment.canonical, Fragment.canonical, String.toList_injective hname,
    String.toList_injective htypes, hdirectives, (Item.row_canonical_inj hviews).1]

/-- The first words of operations are told apart: the keyword and the name, which may be empty. -/
theorem Operation.head_append_inj {k l : OperationKind} {m n : String} {r s : List Char}
    (hm : m ≠ "" → IsName m) (hn : n ≠ "" → IsName n)
    (hr : ∀ c cs, r = ' ' :: c :: cs → isNameStart c = false)
    (hs : ∀ c cs, s = ' ' :: c :: cs → isNameStart c = false) (hr' : Leaves isNameChar r)
    (hs' : Leaves isNameChar s)
    (h : k.keyword.toList ++ ((if m = "" then "" else " " ++ m).toList ++ r) =
      l.keyword.toList ++ ((if n = "" then "" else " " ++ n).toList ++ s)) :
    k = l ∧ m = n ∧ r = s := by
  have hkind : k = l := by
    cases k <;> cases l
    · rfl
    · exact absurd (List.cons.inj h).1 (by decide)
    · exact absurd (List.cons.inj h).1 (by decide)
    · rfl
  subst hkind
  have h := List.append_cancel_left h
  -- A name stands after a space, where nothing else begins like a name.
  have hname : ∀ {m : String} {r t : List Char}, IsName m →
      (∀ c cs, r = ' ' :: c :: cs → isNameStart c = false) → r ≠ ' ' :: (m.toList ++ t) := by
    rintro m r t hm hr rfl
    obtain ⟨c, cs, hcs, hstart⟩ := hm.start
    rw [hr c (cs ++ t) (by rw [hcs]; rfl)] at hstart
    cases hstart
  by_cases hm' : m = "" <;> by_cases hn' : n = ""
  · rw [if_pos hm', if_pos hn'] at h
    exact ⟨rfl, hm'.trans hn'.symm, h⟩
  · rw [if_pos hm', if_neg hn', String.toList_append, List.append_assoc] at h
    exact absurd h (hname (hn hn') hr)
  · rw [if_neg hm', if_pos hn', String.toList_append, List.append_assoc] at h
    exact absurd h.symm (hname (hm hm') hs)
  · rw [if_neg hm', if_neg hn', String.toList_append, String.toList_append, List.append_assoc,
      List.append_assoc] at h
    obtain ⟨hmn, hrest⟩ := append_inj_of_leaves (hm hm').chars (hn hn').chars hr' hs'
      (List.cons.inj h).2
    exact ⟨rfl, String.toList_injective hmn, hrest⟩

theorem Operation.canonical_eq_of_toGraphQL_eq {o p : Operation}
    (ho : (Product.operation o).IsReadable) (hp : (Product.operation p).IsReadable)
    (h : o.toGraphQL = p.toGraphQL) : o.canonical = p.canonical := by
  have htext : ∀ o : Operation, o.toGraphQL.toList = o.kind.keyword.toList ++
      ((if o.name = "" then "" else " " ++ o.name).toList ++ (o.declarations.text.toList ++
        ((selectionText " \x7b " ((Item.row o.selections []).map Item.text)).toList ++ []))) := by
    intro o
    rw [o.toGraphQL_eq, Item.map_text_row, List.map_nil, List.append_nil]
    simp only [String.toList_append, List.append_assoc, List.append_nil]
  have hset := fun texts => @followsHead_selectionText texts [] followsItem_nil
  -- After the name come a parenthesis, a brace after a space, or nothing.
  have hrest : ∀ (a : Arguments) (texts : List String) (c : Char) (cs : List Char),
      a.text.toList ++ ((selectionText " \x7b " texts).toList ++ []) = ' ' :: c :: cs →
        isNameStart c = false := by
    intro a texts c cs heq
    rw [Arguments.toList_text, selectionText] at heq
    split at heq
    · split at heq
      · cases heq
      · simp only [String.toList_append, List.append_assoc] at heq
        rw [← (List.cons.inj (List.cons.inj heq).2).1]
        decide
    · exact absurd (List.cons.inj heq).1 (by decide)
  have hselected : ∀ {o : Operation}, (Product.operation o).IsReadable →
      ∀ x ∈ Item.row o.selections [], x.IsSelected := fun ho =>
    isSelected_selections ho (Operation.IsLawful.selections_named ho.isLawful)
      fun g hg => by simp [Product.parts, hg]
  have hdeclared : ∀ {o : Operation}, (Product.operation o).IsReadable →
      ∀ entry ∈ o.declarations.entries, IsNamedDeclaration entry := fun ho entry hentry =>
    ⟨ho.namesWell.2 entry hentry, (Operation.IsLawful.declarations ho.isLawful entry hentry).2⟩
  have h' := congrArg String.toList h
  rw [htext, htext] at h'
  obtain ⟨hkind, hname, h'⟩ := Operation.head_append_inj ho.namesWell.1 hp.namesWell.1
    (hrest _ _) (hrest _ _) (leaves_arguments (by decide) (by decide) _ (hset _))
    (leaves_arguments (by decide) (by decide) _ (hset _)) h'
  obtain ⟨hdeclarations, h'⟩ := Arguments.declarations_append_inj (hdeclared ho) (hdeclared hp)
    ((hset _).head_ne (by decide)) ((hset _).head_ne (by decide)) h'
  obtain ⟨hviews, -⟩ := selectionText_append_inj Item.IsSelected.exists_head (hselected ho)
    (hselected hp) (fun x hx y hy => unambiguous_item x (hselected ho x hx) y (hselected hp y hy))
    followsItem_nil.ne_opening.1 followsItem_nil.ne_opening.1 h'
  rw [Operation.canonical, Operation.canonical, hkind, hname, hdeclarations,
    (Item.row_canonical_inj hviews).1]

/-- **Texts tell well-named nodes apart.**  Two fields that can be obtained and are well-named have
the same text, and so count as equal, exactly when they have the same canonical form; and so it is
with two fragments and with two operations. -/
theorem Obtainable.toGraphQL_eq_iff :
    (∀ f g : Field, Obtainable (.field f) → Obtainable (.field g) →
      (Product.field f).WellNamed → (Product.field g).WellNamed →
        (f.toGraphQL = g.toGraphQL ↔ f.canonical = g.canonical) ∧
          ((f == g) = true ↔ f.canonical = g.canonical)) ∧
    (∀ f g : Fragment, Obtainable (.fragment f) → Obtainable (.fragment g) →
      (Product.fragment f).WellNamed → (Product.fragment g).WellNamed →
        (f.toGraphQL = g.toGraphQL ↔ f.canonical = g.canonical)) ∧
    ∀ o p : Operation, Obtainable (.operation o) → Obtainable (.operation p) →
      (Product.operation o).WellNamed → (Product.operation p).WellNamed →
        (o.toGraphQL = p.toGraphQL ↔ o.canonical = p.canonical) := by
  refine ⟨?_, ?_, ?_⟩
  · intro f g hf hg hf' hg'
    have htext : f.toGraphQL = g.toGraphQL ↔ f.canonical = g.canonical := by
      constructor
      · exact Field.canonical_eq_of_toGraphQL_eq ⟨hf.wellFormed, hf'⟩ ⟨hg.wellFormed, hg'⟩
      · intro h
        rw [← f.toGraphQL_canonical, h, g.toGraphQL_canonical]
    have hequal : (f == g) = true ↔ f.toGraphQL = g.toGraphQL := by
      show (f.toGraphQL == g.toGraphQL) = true ↔ _
      exact beq_iff_eq
    exact ⟨htext, hequal.trans htext⟩
  · intro f g hf hg hf' hg'
    constructor
    · exact Fragment.canonical_eq_of_toGraphQL_eq ⟨hf.wellFormed, hf'⟩ ⟨hg.wellFormed, hg'⟩
    · intro h
      rw [← f.toGraphQL_canonical, h, g.toGraphQL_canonical]
  · intro o p ho hp ho' hp'
    constructor
    · exact Operation.canonical_eq_of_toGraphQL_eq ⟨ho.wellFormed, ho'⟩ ⟨hp.wellFormed, hp'⟩
    · intro h
      rw [← o.toGraphQL_canonical, h, p.toGraphQL_canonical]

/-- A field that is given its variable as a string and one that is given it as a reference, alone,
in fragments and in operations. -/
theorem Obtainable.toGraphQL_eq_iff_variable :
    let field (v : Value) : Field := ⟨none, (∅ : Arguments).insert "x" v, [], "a", []⟩
    let fragment (v : Value) : Fragment := ⟨none, "F", [field v], "T"⟩
    let operation (v : Value) : Operation := ⟨.query, "Q", [field v], ∅⟩
    let v : Value := .string "$v"
    let w : Value := .reference "v"
    (field v).toGraphQL = (field w).toGraphQL ∧ (fragment v).toGraphQL = (fragment w).toGraphQL ∧
      (operation v).toGraphQL = (operation w).toGraphQL := by
  intro field fragment operation v w
  -- One session gives the three nodes.
  have hobtainable : ∀ u ∈ [v, w], Obtainable (.field (field u)) ∧
      Obtainable (.fragment (fragment u)) ∧ Obtainable (.operation (operation u)) := by
    intro u hu
    let draft := (Field.draft "a").addArgument "x" u
    let calls : List Call := [.draftField "a", .changeField (Field.draft "a") (.addArgument "x" u),
      .buildField draft, .fragment "F" "T" [field u], .operation .query "Q" [field u]]
    let pool : List Product := [.fieldDraft (Field.draft "a"), .fieldDraft draft, .field (field u),
      .fragment (fragment u), .operation (operation u)]
    have hbuild : draft.build = .ok (field u) := by
      rcases List.mem_pair.mp hu with rfl | rfl <;> rfl
    have drafted : Session (calls.take 1) (pool.take 1) :=
      .returns .start (by simp [Call.operands]) rfl
    have changed : Session (calls.take 2) (pool.take 2) :=
      .returns drafted (by simp [Call.operands, Field.Draft.Change.operands, pool]) rfl
    have built : Session (calls.take 3) (pool.take 3) :=
      .returns changed (by simp [Call.operands, pool]) (map_eq_ok_iff.mpr ⟨_, hbuild, rfl⟩)
    have defined : Session (calls.take 4) (pool.take 4) :=
      .returns built (by simp [Call.operands, pool]) rfl
    have session : Session calls pool := .returns defined (by simp [Call.operands, pool]) rfl
    exact ⟨⟨calls, pool, session, by simp [pool]⟩, ⟨calls, pool, session, by simp [pool]⟩,
      ⟨calls, pool, session, by simp [pool]⟩⟩
  -- Every text in the nodes is a name.
  have hletter : ∀ s ∈ ["a", "x", "v", "F", "T", "Q"], IsName s := by
    intro s hs
    simp only [List.mem_cons, List.not_mem_nil, or_false] at hs
    rcases hs with rfl | rfl | rfl | rfl | rfl | rfl <;>
      exact ⟨⟨_, _, rfl, by decide⟩, List.all_eq_true.mp rfl⟩
  have hvalue : ∀ u ∈ [v, w], u.WellNamed := by
    intro u hu
    have hu : u = .string "$v" ∨ u = .reference "v" := List.mem_pair.mp hu
    rcases hu with rfl | rfl
    · exact (Value.forall_occurs_leaf (by rintro u ⟨⟩; rfl)).mpr
        (.inl ⟨"v", hletter "v" (by simp), rfl⟩)
    · exact (Value.forall_occurs_leaf (by rintro u ⟨⟩; rfl)).mpr (hletter "v" (by simp))
  have hfield : ∀ u ∈ [v, w], (Product.field (field u)).WellNamed := by
    intro u hu
    refine Product.wellNamed_of_parts ⟨fun _ => .inl (hletter "a" (by simp)), by simp [field], ?_⟩
      fun _ h => absurd h List.not_mem_nil
    intro entry hentry
    obtain rfl : entry = ("x", u) := List.mem_singleton.mp hentry
    exact ⟨fun _ => hletter "x" (by simp), hvalue u hu⟩
  have hparts : ∀ u ∈ [v, w], ∀ q ∈ [Product.field (field u)], q.WellNamed := by
    intro u hu q hq
    rw [List.mem_singleton.mp hq]
    exact hfield u hu
  have hfragment : ∀ u ∈ [v, w], (Product.fragment (fragment u)).WellNamed := fun u hu =>
    Product.wellNamed_of_parts ⟨hletter "F" (by simp), fun _ => hletter "T" (by simp)⟩
      (hparts u hu)
  have hoperation : ∀ u ∈ [v, w], (Product.operation (operation u)).WellNamed := fun u hu =>
    Product.wellNamed_of_parts
      ⟨fun _ => hletter "Q" (by simp), fun _ h => absurd h List.not_mem_nil⟩
      (hparts u hu)
  have hv : v ∈ [v, w] := List.mem_cons_self ..
  have hw : w ∈ [v, w] := List.mem_cons_of_mem _ (List.mem_singleton.mpr rfl)
  obtain ⟨fields, fragments, operations⟩ := Obtainable.toGraphQL_eq_iff
  refine ⟨(fields _ _ (hobtainable v hv).1 (hobtainable w hw).1 (hfield v hv) (hfield w hw)).1.mpr
    rfl, (fragments _ _ (hobtainable v hv).2.1 (hobtainable w hw).2.1 (hfragment v hv)
      (hfragment w hw)).mpr rfl, (operations _ _ (hobtainable v hv).2.2 (hobtainable w hw).2.2
        (hoperation v hv) (hoperation w hw)).mpr rfl⟩

end QueryComposer
