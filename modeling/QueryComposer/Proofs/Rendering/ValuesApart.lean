import QueryComposer.Proofs.Double.Notation
import QueryComposer.Proofs.InputType
import QueryComposer.Proofs.Nodes.Lawful
import QueryComposer.Proofs.Rendering.Apart
import QueryComposer.Proofs.Rendering.Canonical

/-!
# Values are told apart by their texts

Texts are written without escapes, so they tell values apart only if no text inside a value ends
early or passes for something else.  A value is *well-named* when this is so at every depth
(`Value.WellNamed`).  The first character of a literal says of which sort it is
(`Value.exists_head`); with it, `Value.unambiguous` shows that the text of a well-named literal, up
to where a value can stop, determines its canonical form, and `Arguments.text_append_inj` and
`Directive.toGraphQL_append_inj` carry this on to what holds values.
-/

namespace QueryComposer

open Double Json

/-! ### Well-named values -/

namespace Value

/-- A text that the value itself holds is as it must be to be read back: variables have names, and
neither a key nor a string in quotes holds a quote. -/
def IsPlain : Value → Prop
  | object members => ∀ m ∈ members, '"' ∉ m.1.toList
  | string s => (∃ name, IsName name ∧ s.toList = '$' :: name.toList) ∨
      (∀ rest, s.toList ≠ '$' :: rest) ∧ '"' ∉ s.toList
  | reference name => IsName name
  | _ => True

def WellNamed (v : Value) : Prop := ∀ u, Occurs u v → u.IsPlain

theorem WellNamed.isPlain {v : Value} (h : v.WellNamed) : v.IsPlain := h v .here

theorem wellNamed_list (elements : List Value) :
    (list elements).WellNamed ↔ ∀ v ∈ elements, v.WellNamed :=
  forall_occurs_list.trans (and_iff_right trivial)

theorem wellNamed_object (members : List (String × Value)) :
    (object members).WellNamed ↔
      (∀ m ∈ members, '"' ∉ m.1.toList) ∧ ∀ m ∈ members, m.2.WellNamed :=
  forall_occurs_object

/-- A literal whose texts can be read back. -/
structure IsReadable (v : Value) : Prop where
  hasLiteral : v.HasLiteral
  wellNamed : v.WellNamed

theorem IsReadable.element {elements : List Value} (h : (list elements).IsReadable) :
    ∀ v ∈ elements, v.IsReadable :=
  fun v hv => ⟨(hasLiteral_list elements).mp h.hasLiteral v hv,
    (wellNamed_list elements).mp h.wellNamed v hv⟩

theorem IsReadable.member {members : List (String × Value)} (h : (object members).IsReadable) :
    ∀ m ∈ members, '"' ∉ m.1.toList ∧ m.2.IsReadable :=
  fun m hm => ⟨((wellNamed_object members).mp h.wellNamed).1 m hm,
    (hasLiteral_object members).mp h.hasLiteral m hm,
    ((wellNamed_object members).mp h.wellNamed).2 m hm⟩

/-! ### First characters -/

/-- The sorts of text that a first character announces; `stop` are the characters that may follow a
value. -/
inductive Lead where
  | dollar
  | list
  | number
  | object
  | quote
  | stop
  | word

def Lead.ofChar (c : Char) : Lead :=
  if c = '$' then .dollar
  else if c = '[' then .list
  else if c = '-' ∨ c.isDigit = true then .number
  else if c = '\x7b' then .object
  else if c = '"' then .quote
  else if c = ',' ∨ c = ']' ∨ c = '\x7d' ∨ c = ')' then .stop
  else .word

/-- The value is of the sort that is announced. -/
def Lead.Leads : Lead → Value → Prop
  | dollar, v => ∃ name, IsName name ∧ v.toGraphQL = "$" ++ name ∧ v.canonical = reference name
  | list, v => ∃ elements, v = .list elements
  | number, v => (∃ x, v = float x) ∨ ∃ n, v = int n
  | object, v => ∃ members, v = .object members
  | quote, v => ∃ s, '"' ∉ s.toList ∧ v.toGraphQL = "\"" ++ s ++ "\"" ∧ v.canonical = string s
  | stop, _ => False
  | word, v => ∃ b, v = boolean b

theorem Lead.ofChar_number {c : Char} (h : c = '-' ∨ c.isDigit = true) : ofChar c = number := by
  have hdollar : c ≠ '$' := by rintro rfl; revert h; decide
  have hbracket : c ≠ '[' := by rintro rfl; revert h; decide
  rw [ofChar, if_neg hdollar, if_neg hbracket, if_pos h]

/-- The rest goes on as it may after a value: with a comma or a closing bracket. -/
def Stops (r : List Char) : Prop := ∃ c ∈ r.head?, c = ',' ∨ c = ']' ∨ c = '\x7d' ∨ c = ')'

theorem Stops.endsNumber {r : List Char} (h : Stops r) : EndsNumber r := by
  obtain ⟨c, hc, hstop⟩ := h
  intro d hd
  obtain rfl : c = d := Option.some.inj (hc.symm.trans hd)
  rcases hstop with rfl | rfl | rfl | rfl <;> decide

theorem Stops.leaves_nameChar {r : List Char} (h : Stops r) : Leaves isNameChar r := by
  obtain ⟨c, hc, hstop⟩ := h
  intro d hd
  obtain rfl : c = d := Option.some.inj (hc.symm.trans hd)
  rcases hstop with rfl | rfl | rfl | rfl <;> decide

/-! ### The texts of the sorts -/

theorem toList_list (elements : List Value) :
    (list elements).toGraphQL.toList =
      '[' :: ((", ".intercalate (elements.map toGraphQL)).toList ++ [']']) := by
  rw [toGraphQL_list, String.toList_append, String.toList_append]
  rfl

theorem toList_object (members : List (String × Value)) :
    (object members).toGraphQL.toList =
      '\x7b' :: ((", ".intercalate (members.map memberText)).toList ++ ['\x7d']) := by
  rw [toGraphQL_object, String.toList_append, String.toList_append]
  rfl

theorem toGraphQL_int (n : Int64) : (int n).toGraphQL = toString n.toInt := by
  rw [toGraphQL, appendTo, String.empty_append]

theorem toGraphQL_float (x : Double) : (float x).toGraphQL = numberStyle.text x := by
  rw [toGraphQL, appendTo, String.empty_append]

theorem exists_head_number {v : Value} (hliteral : v.IsWritable) (hv : Lead.number.Leads v) :
    ∃ c cs, v.toGraphQL.toList = c :: cs ∧ Lead.ofChar c = .number := by
  have hread : ∃ t, readNumeral (v.toGraphQL.toList ++ []) = some (t, []) := by
    rcases hv with ⟨x, rfl⟩ | ⟨n, rfl⟩
    · rw [toGraphQL_float]
      cases x with
      | finite negative rank hrank =>
        obtain ⟨t, ht, -⟩ := numberStyle.readNumeral_text negative rank hrank endsNumber_nil
        exact ⟨t, ht⟩
      | infinite | nan => cases hliteral
    · rw [toGraphQL_int]
      exact ⟨_, readNumeral_int n.toInt endsNumber_nil⟩
  rw [List.append_nil] at hread
  obtain ⟨t, ht⟩ := hread
  obtain ⟨c, cs, hcs, hc⟩ := head_of_readNumeral ht
  exact ⟨c, cs, hcs, Lead.ofChar_number hc⟩

theorem leads_string {s : String} (h : (string s).IsPlain) :
    Lead.dollar.Leads (string s) ∨ Lead.quote.Leads (string s) := by
  rcases h with ⟨name, hname, hs⟩ | ⟨hdollar, hquote⟩
  · have hs' : s = "$" ++ name := by
      apply String.toList_injective
      rw [hs, String.toList_append]
      rfl
    refine .inl ⟨name, hname, ?_, ?_⟩
    · rw [toGraphQL_string_dollar hs, hs']
    · rw [canonical_string_dollar hs, String.ofList_toList]
  · exact .inr ⟨s, hquote, toGraphQL_string hdollar, canonical_string hdollar⟩

theorem exists_head {v : Value} (hliteral : v.IsWritable) (hplain : v.IsPlain) :
    ∃ c cs, v.toGraphQL.toList = c :: cs ∧ (Lead.ofChar c).Leads v := by
  have hdollar : Lead.dollar.Leads v → ∃ cs, v.toGraphQL.toList = '$' :: cs := by
    rintro ⟨name, -, htext, -⟩
    exact ⟨name.toList, by rw [htext, String.toList_append]; rfl⟩
  cases v with
  | boolean b =>
    cases b with
    | false => exact ⟨'f', _, rfl, false, rfl⟩
    | true => exact ⟨'t', _, rfl, true, rfl⟩
  | float x =>
    obtain ⟨c, cs, hcs, hc⟩ := exists_head_number hliteral (.inl ⟨x, rfl⟩)
    exact ⟨c, cs, hcs, hc ▸ .inl ⟨x, rfl⟩⟩
  | int n =>
    obtain ⟨c, cs, hcs, hc⟩ := exists_head_number hliteral (.inr ⟨n, rfl⟩)
    exact ⟨c, cs, hcs, hc ▸ .inr ⟨n, rfl⟩⟩
  | list elements => exact ⟨_, _, toList_list elements, elements, rfl⟩
  | object members => exact ⟨_, _, toList_object members, members, rfl⟩
  | placeholder t => exact absurd hliteral id
  | reference name =>
    have hlead : Lead.dollar.Leads (reference name) :=
      ⟨name, hplain, toGraphQL_reference name, rfl⟩
    obtain ⟨cs, hcs⟩ := hdollar hlead
    exact ⟨_, cs, hcs, hlead⟩
  | string s =>
    rcases leads_string hplain with hlead | hlead
    · obtain ⟨cs, hcs⟩ := hdollar hlead
      exact ⟨_, cs, hcs, hlead⟩
    · have ⟨t, _, htext, _⟩ := hlead
      exact ⟨'"', t.toList ++ ['"'], by simp [htext], hlead⟩

/-- What begins with the text of a literal begins with a character that announces its sort. -/
theorem IsReadable.leads {v : Value} (hv : v.IsReadable) {c : Char} {cs s : List Char}
    (h : c :: cs = v.toGraphQL.toList ++ s) : (Lead.ofChar c).Leads v := by
  obtain ⟨d, ds, hds, hlead⟩ := exists_head (hv.hasLiteral v .here) hv.wellNamed.isPlain
  rw [hds, List.cons_append] at h
  rw [(List.cons.inj h).1]
  exact hlead

theorem IsReadable.head_ne {v : Value} (hv : v.IsReadable) {close : Char}
    (hclose : close = ']' ∨ close = '\x7d' ∨ close = ')') :
    ∃ c cs, v.toGraphQL.toList = c :: cs ∧ c ≠ close := by
  obtain ⟨c, cs, hcs, hlead⟩ := exists_head (hv.hasLiteral v .here) hv.wellNamed.isPlain
  refine ⟨c, cs, hcs, ?_⟩
  rintro rfl
  rcases hclose with rfl | rfl | rfl <;> exact hlead

end Value

/-! ### Rows of values -/

/-- Items that do not begin with the closing bracket stand in rows with commas between them. -/
theorem row_of_head_ne {α : Type} {P : α → Prop} {text : α → String} {close : Char}
    (hclose : close = ']' ∨ close = '\x7d' ∨ close = ')')
    (htext : ∀ {x : α}, P x → ∃ c cs, (text x).toList = c :: cs ∧ c ≠ close) :
    Row P text ", " Value.Stops (fun r => r.head? = some close) where
  follows_of_ends := fun h => ⟨close, h, .inr hclose⟩
  follows_separator := fun _ _ => ⟨',', rfl, .inl rfl⟩
  not_ends_separator := by
    intro x _ r h
    obtain rfl : ',' = close := Option.some.inj h
    rcases hclose with h | h | h <;> cases h
  not_ends_text := by
    intro x hx r h
    obtain ⟨c, cs, hcs, hc⟩ := htext hx
    rw [hcs] at h
    exact hc (Option.some.inj h)

/-- A text up to the first `c` is told from what follows. -/
theorem append_cons_inj {c : Char} {a b r s : List Char} (ha : c ∉ a) (hb : c ∉ b)
    (h : a ++ c :: r = b ++ c :: s) : a = b ∧ r = s := by
  have hne : ∀ {a : List Char}, c ∉ a → ∀ d ∈ a, (d != c) = true := by
    intro a ha d hd
    rw [bne_iff_ne]
    rintro rfl
    exact ha hd
  have hleaves : ∀ r, Leaves (· != c) (c :: r) := fun r => leaves_cons r (by simp)
  obtain ⟨hab, hrest⟩ := append_inj_of_leaves (hne ha) (hne hb) (hleaves r) (hleaves s) h
  exact ⟨hab, (List.cons.inj hrest).2⟩

namespace Value

theorem toList_memberText (m : String × Value) :
    (memberText m).toList =
      ['"'] ++ (m.1.toList ++ '"' :: ([':', ' '] ++ m.2.toGraphQL.toList)) := by
  simp [memberText, String.toList_append]

/-- Values under keys are told apart if the values are and the character that ends a key does not
occur in it. -/
theorem unambiguous_keyed {β : Type} {text : String × Value → String} {c : Char}
    {before after : List Char} {view : Value → β}
    (htext : ∀ m, (text m).toList = before ++ (m.1.toList ++ c :: (after ++ m.2.toGraphQL.toList)))
    {m n : String × Value} (hm : c ∉ m.1.toList) (hn : c ∉ n.1.toList)
    (h : Unambiguous toGraphQL view Stops m.2 n.2) :
    Unambiguous text (fun m => (m.1, view m.2)) Stops m n := by
  intro r s hr hs heq
  rw [htext, htext] at heq
  simp only [List.append_assoc, List.cons_append] at heq
  obtain ⟨hkey, hvalues⟩ := append_cons_inj hm hn (List.append_cancel_left heq)
  obtain ⟨hview, hrest⟩ := h hr hs (List.append_cancel_left hvalues)
  refine ⟨?_, hrest⟩
  show (m.1, view m.2) = (n.1, view n.2)
  rw [hview, String.toList_injective hkey]

/-! ### Values -/

theorem int_append_inj {m n : Int64} {r s : List Char} (hr : EndsNumber r) (hs : EndsNumber s)
    (h : (toString m.toInt).toList ++ r = (toString n.toInt).toList ++ s) : m = n ∧ r = s := by
  have hread := readNumeral_int m.toInt hr
  rw [h, readNumeral_int n.toInt hs] at hread
  obtain ⟨hnumeral, rfl⟩ := Prod.mk.inj (Option.some.inj hread)
  obtain ⟨hsign, hdigits, -, -⟩ := Numeral.mk.inj hnumeral
  have habs : n.toInt.natAbs = m.toInt.natAbs := by
    rw [← digitsValue_toDigits n.toInt.natAbs, hdigits, digitsValue_toDigits]
  have hneg : n.toInt < 0 ↔ m.toInt < 0 := decide_eq_decide.mp hsign
  exact ⟨Int64.toInt_inj.mp (by omega), rfl⟩

theorem int_append_ne_float {n : Int64} {x : Double} (hx : x.isFinite = true) {r s : List Char}
    (hr : EndsNumber r) (hs : EndsNumber s) :
    (toString n.toInt).toList ++ r ≠ (numberStyle.text x).toList ++ s := by
  intro h
  cases x with
  | finite negative rank hrank =>
    obtain ⟨t, ht, -, hparts, -⟩ := numberStyle.readNumeral_text negative rank hrank hs
    rw [← h, readNumeral_int n.toInt hr] at ht
    obtain ⟨rfl, -⟩ := Prod.mk.inj (Option.some.inj ht)
    rcases hparts with hparts | hparts <;> exact hparts rfl
  | infinite | nan => cases hx

/-- Two values of which one is a list look the same if the texts of the elements are told apart. -/
theorem unambiguous_list {xs : List Value} (hxs : ∀ v ∈ xs, v.IsReadable)
    (h : ∀ v ∈ xs, ∀ w, w.IsReadable → Unambiguous toGraphQL canonical Stops v w) {w : Value}
    (hw : w.IsReadable) : Unambiguous toGraphQL canonical Stops (list xs) w := by
  intro r s hr hs heq
  rw [toList_list, List.cons_append] at heq
  obtain ⟨ys, rfl⟩ := hw.leads heq
  rw [toList_list, List.cons_append, List.append_assoc, List.append_assoc] at heq
  have row : Row IsReadable toGraphQL ", " Stops (fun r => r.head? = some ']') :=
    row_of_head_ne (.inl rfl) fun hv => hv.head_ne (.inl rfl)
  obtain ⟨hviews, hrest⟩ := row.intercalate_append_inj hxs hw.element
    (fun x hx y hy => h x hx y (hw.element y hy)) rfl rfl (List.cons.inj heq).2
  refine ⟨?_, (List.cons.inj hrest).2⟩
  rw [canonical_list, canonical_list, hviews]

@[inherit_doc unambiguous_list]
theorem unambiguous_object {ms : List (String × Value)}
    (hms : ∀ m ∈ ms, '"' ∉ m.1.toList ∧ m.2.IsReadable)
    (h : ∀ m ∈ ms, ∀ w, w.IsReadable → Unambiguous toGraphQL canonical Stops m.2 w) {w : Value}
    (hw : w.IsReadable) : Unambiguous toGraphQL canonical Stops (object ms) w := by
  intro r s hr hs heq
  rw [toList_object, List.cons_append] at heq
  obtain ⟨ns, rfl⟩ := hw.leads heq
  rw [toList_object, List.cons_append, List.append_assoc, List.append_assoc] at heq
  have row : Row (fun m : String × Value => '"' ∉ m.1.toList ∧ m.2.IsReadable) memberText ", "
      Stops (fun r => r.head? = some '\x7d') := by
    refine row_of_head_ne (.inr (.inl rfl)) fun {m} _ => ⟨'"', _, toList_memberText m, by decide⟩
  obtain ⟨hviews, hrest⟩ := row.intercalate_append_inj hms hw.member
    (fun m hm n hn => unambiguous_keyed toList_memberText (hms m hm).1 (hw.member n hn).1
      (h m hm n.2 (hw.member n hn).2)) rfl rfl (List.cons.inj heq).2
  refine ⟨?_, (List.cons.inj hrest).2⟩
  rw [canonical_object, canonical_object]
  exact congrArg object hviews

/-- A value that announces a variable is told from every other. -/
theorem unambiguous_dollar {v w : Value} (hv : Lead.dollar.Leads v) (hw : w.IsReadable) :
    Unambiguous toGraphQL canonical Stops v w := by
  intro r s hr hs heq
  obtain ⟨name, hname, htext, hview⟩ := hv
  rw [htext, String.toList_append] at heq
  obtain ⟨other, hother, htext', hview'⟩ := hw.leads heq
  rw [htext', String.toList_append] at heq
  obtain ⟨hnames, hrest⟩ := append_inj_of_leaves hname.chars hother.chars hr.leaves_nameChar
    hs.leaves_nameChar (List.cons.inj heq).2
  rw [hview, hview', String.toList_injective hnames]
  exact ⟨rfl, hrest⟩

theorem unambiguous_quote {v w : Value} (hv : Lead.quote.Leads v) (hw : w.IsReadable) :
    Unambiguous toGraphQL canonical Stops v w := by
  intro r s hr hs heq
  obtain ⟨t, ht, htext, hview⟩ := hv
  rw [htext, String.toList_append, String.toList_append] at heq
  obtain ⟨u, hu, htext', hview'⟩ := hw.leads heq
  rw [htext', String.toList_append, String.toList_append] at heq
  have hquoted : t.toList ++ '"' :: r = u.toList ++ '"' :: s := by
    simpa using heq
  obtain ⟨htu, hrest⟩ := append_cons_inj ht hu hquoted
  rw [hview, hview', String.toList_injective htu]
  exact ⟨rfl, hrest⟩

theorem unambiguous_number {v w : Value} (hv : v.IsReadable) (hnumber : Lead.number.Leads v)
    (hw : w.IsReadable) : Unambiguous toGraphQL canonical Stops v w := by
  intro r s hr hs heq
  have hfinite : ∀ {x}, (float x).IsReadable → x.isFinite = true := fun h => h.hasLiteral _ .here
  obtain ⟨c, cs, hcs, hc⟩ := exists_head_number (hv.hasLiteral v .here) hnumber
  have hlead : Lead.number.Leads w := by
    have hhead := heq
    rw [hcs, List.cons_append] at hhead
    exact hc ▸ hw.leads hhead
  rcases hnumber with ⟨x, rfl⟩ | ⟨m, rfl⟩ <;> rcases hlead with ⟨y, rfl⟩ | ⟨n, rfl⟩
  · rw [toGraphQL_float, toGraphQL_float] at heq
    obtain ⟨rfl, hrest⟩ :=
      numberStyle.text_append_inj (hfinite hv) (hfinite hw) hr.endsNumber hs.endsNumber heq
    exact ⟨rfl, hrest⟩
  · rw [toGraphQL_float, toGraphQL_int] at heq
    exact absurd heq.symm (int_append_ne_float (hfinite hv) hs.endsNumber hr.endsNumber)
  · rw [toGraphQL_int, toGraphQL_float] at heq
    exact absurd heq (int_append_ne_float (hfinite hw) hr.endsNumber hs.endsNumber)
  · rw [toGraphQL_int, toGraphQL_int] at heq
    obtain ⟨rfl, hrest⟩ := int_append_inj hr.endsNumber hs.endsNumber heq
    exact ⟨rfl, hrest⟩

theorem unambiguous_boolean (b : Bool) {w : Value} (hw : w.IsReadable) :
    Unambiguous toGraphQL canonical Stops (boolean b) w := by
  intro r s hr hs heq
  have hlead : Lead.word.Leads w := by
    cases b with
    | false => exact hw.leads (show 'f' :: _ = _ from heq)
    | true => exact hw.leads (show 't' :: _ = _ from heq)
  obtain ⟨b', rfl⟩ := hlead
  have htext : ∀ b, (boolean b).toGraphQL = if b then "true" else "false" := by decide
  rw [htext, htext] at heq
  cases b <;> cases b'
  · exact ⟨rfl, List.append_cancel_left heq⟩
  · exact absurd (List.cons.inj heq).1 (by decide)
  · exact absurd (List.cons.inj heq).1 (by decide)
  · exact ⟨rfl, List.append_cancel_left heq⟩

/-- **The text of a readable value determines its canonical form**, up to where the value stops. -/
theorem unambiguous (v : Value) :
    v.IsReadable → ∀ w : Value, w.IsReadable → Unambiguous toGraphQL canonical Stops v w := by
  induction v using nestedInduction with
  | boolean b => exact fun _ w hw => unambiguous_boolean b hw
  | float x => exact fun hv w hw => unambiguous_number hv (.inl ⟨x, rfl⟩) hw
  | int n => exact fun hv w hw => unambiguous_number hv (.inr ⟨n, rfl⟩) hw
  | list elements ih =>
    exact fun hv w hw => unambiguous_list hv.element (fun x hx => ih x hx (hv.element x hx)) hw
  | object members ih =>
    exact fun hv w hw =>
      unambiguous_object hv.member (fun m hm => ih m hm (hv.member m hm).2) hw
  | placeholder t => exact fun hv => absurd (hv.hasLiteral _ .here) id
  | string s =>
    intro hv w hw
    rcases leads_string hv.wellNamed.isPlain with hlead | hlead
    · exact unambiguous_dollar hlead hw
    · exact unambiguous_quote hlead hw
  | reference name =>
    intro hv w hw
    exact unambiguous_dollar ⟨name, hv.wellNamed.isPlain, toGraphQL_reference name, rfl⟩ hw

end Value

/-! ### Arguments -/

namespace Arguments

theorem toList_entryText (entry : String × Value) :
    (entryText entry).toList =
      [] ++ (entry.1.toList ++ ':' :: ([' '] ++ entry.2.toGraphQL.toList)) := by
  simp [entryText, String.toList_append]

theorem toList_text (arguments : Arguments) :
    arguments.text.toList = if arguments.isEmpty then [] else
      '(' :: ((", ".intercalate (arguments.entries.map entryText)).toList ++ [')']) := by
  rw [text_eq]
  split
  · rfl
  · rw [String.toList_append, String.toList_append]
    rfl

/-- Arguments are told apart if their entries are, where they are not followed by a parenthesis. -/
theorem text_append_inj_of_row {β : Type} {P : String × Value → Prop} {view : String × Value → β}
    (hhead : ∀ {entry}, P entry → ∃ c cs, (entryText entry).toList = c :: cs ∧ c ≠ ')')
    (hentries : ∀ {m n}, P m → P n → Unambiguous entryText view Value.Stops m n) {a b : Arguments}
    (ha : ∀ entry ∈ a.entries, P entry) (hb : ∀ entry ∈ b.entries, P entry) {r s : List Char}
    (hr : r.head? ≠ some '(') (hs : s.head? ≠ some '(')
    (h : a.text.toList ++ r = b.text.toList ++ s) :
    a.entries.map view = b.entries.map view ∧ r = s := by
  have hempty : ∀ {a : Arguments}, a.isEmpty = true → a.entries = [] := List.isEmpty_iff.mp
  rw [toList_text, toList_text] at h
  by_cases ha' : a.isEmpty = true <;> by_cases hb' : b.isEmpty = true
  · rw [if_pos ha', if_pos hb'] at h
    rw [hempty ha', hempty hb']
    exact ⟨rfl, h⟩
  · rw [if_pos ha', if_neg hb'] at h
    exact absurd (by rw [← List.nil_append r, h]; rfl) hr
  · rw [if_neg ha', if_pos hb'] at h
    exact absurd (by rw [← List.nil_append s, ← h]; rfl) hs
  · rw [if_neg ha', if_neg hb', List.cons_append, List.cons_append, List.append_assoc,
      List.append_assoc] at h
    obtain ⟨hviews, hrest⟩ := (row_of_head_ne (.inr (.inr rfl)) hhead).intercalate_append_inj ha hb
      (fun m hm n hn => hentries (ha m hm) (hb n hn)) rfl rfl (List.cons.inj h).2
    exact ⟨hviews, (List.cons.inj hrest).2⟩

/-- The arguments have names of the query language, or empty ones, and well-named values. -/
def WellNamed (arguments : Arguments) : Prop :=
  ∀ entry ∈ arguments.entries, (entry.1 ≠ "" → IsName entry.1) ∧ entry.2.WellNamed

/-- **The text of arguments determines their canonical form** where no parenthesis follows. -/
theorem text_append_inj {a b : Arguments} (ha : a.HaveLiterals) (ha' : a.WellNamed)
    (hb : b.HaveLiterals) (hb' : b.WellNamed) {r s : List Char} (hr : r.head? ≠ some '(')
    (hs : s.head? ≠ some '(') (h : a.text.toList ++ r = b.text.toList ++ s) :
    a.canonical = b.canonical ∧ r = s := by
  let P (entry : String × Value) : Prop := (entry.1 ≠ "" → IsName entry.1) ∧ entry.2.IsReadable
  have hcolon : ∀ {entry}, P entry → ':' ∉ entry.1.toList := fun hentry hmem =>
    absurd (nameChars_of_name hentry.1 ':' hmem) (by decide)
  have hhead : ∀ {entry}, P entry → ∃ c cs, (entryText entry).toList = c :: cs ∧ c ≠ ')' := by
    intro entry hentry
    rw [toList_entryText]
    by_cases hkey : entry.1 = ""
    · exact ⟨':', _, by rw [hkey]; rfl, by decide⟩
    · obtain ⟨c, cs, hcs, hstart⟩ := (hentry.1 hkey).start
      refine ⟨c, _, by rw [hcs]; rfl, ?_⟩
      rintro rfl
      exact absurd hstart (by decide)
  have hentries : ∀ {a : Arguments}, a.HaveLiterals → a.WellNamed → ∀ entry ∈ a.entries, P entry :=
    fun h h' entry hentry => ⟨(h' entry hentry).1, h entry hentry, (h' entry hentry).2⟩
  obtain ⟨hviews, hrest⟩ := text_append_inj_of_row hhead
    (fun hm hn => Value.unambiguous_keyed toList_entryText (hcolon hm) (hcolon hn)
      (Value.unambiguous _ hm.2 _ hn.2)) (hentries ha ha') (hentries hb hb') hr hs h
  refine ⟨?_, hrest⟩
  rw [canonical, canonical]
  congr 1

end Arguments

/-! ### Declarations -/

theorem Value.unambiguous_placeholder (t u : InputType) :
    Unambiguous toGraphQL id Stops (placeholder t) (placeholder u) := by
  intro r s hr hs h
  let p (c : Char) : Bool := c.isAlpha || c == '!'
  have hchars : ∀ t : InputType, ∀ c ∈ (placeholder t).toGraphQL.toList, p c = true := by
    rintro ⟨kind, required⟩
    cases kind <;> cases required <;> exact List.all_eq_true.mp rfl
  have hleaves : ∀ {r}, Stops r → Leaves p r := by
    rintro r ⟨c, hc, hstop⟩ d hd
    obtain rfl : c = d := Option.some.inj (hc.symm.trans hd)
    rcases hstop with rfl | rfl | rfl | rfl <;> decide
  obtain ⟨htu, hrest⟩ := append_inj_of_leaves (hchars t) (hchars u) (hleaves hr) (hleaves hs) h
  have htexts : t.toGraphQL = u.toGraphQL := String.toList_injective htu
  have htypes := InputType.ofName?_toGraphQL t
  rw [htexts, InputType.ofName?_toGraphQL] at htypes
  exact ⟨congrArg placeholder (Option.some.inj htypes).symm, hrest⟩

/-- The entry declares a variable that has a name of the query language. -/
structure IsNamedDeclaration (entry : String × Value) : Prop where
  key : ∃ name, IsName name ∧ entry.1 = "$" ++ name
  type : ∃ t, entry.2 = .placeholder t

/-- **The text of declarations determines them** where no parenthesis follows. -/
theorem Arguments.declarations_append_inj {a b : Arguments}
    (ha : ∀ entry ∈ a.entries, IsNamedDeclaration entry)
    (hb : ∀ entry ∈ b.entries, IsNamedDeclaration entry) {r s : List Char}
    (hr : r.head? ≠ some '(') (hs : s.head? ≠ some '(')
    (h : a.text.toList ++ r = b.text.toList ++ s) : a = b ∧ r = s := by
  -- Names hold no colon, so the colon behind the key ends it.
  have hcolon : ∀ {entry}, IsNamedDeclaration entry → ':' ∉ entry.1.toList := by
    intro entry hentry hmem
    obtain ⟨name, hname, hkey⟩ := hentry.key
    rw [hkey, String.toList_append] at hmem
    rcases List.mem_append.mp hmem with hmem | hmem
    · exact absurd hmem (by decide)
    · exact absurd (hname.chars ':' hmem) (by decide)
  have hhead : ∀ {entry}, IsNamedDeclaration entry →
      ∃ c cs, (entryText entry).toList = c :: cs ∧ c ≠ ')' := by
    intro entry hentry
    obtain ⟨name, -, hkey⟩ := hentry.key
    rw [toList_entryText, hkey, String.toList_append]
    exact ⟨'$', _, rfl, by decide⟩
  have hentries : ∀ {m n}, IsNamedDeclaration m → IsNamedDeclaration n →
      Unambiguous entryText id Value.Stops m n := by
    intro m n hm hn
    obtain ⟨t, ht⟩ := hm.type
    obtain ⟨u, hu⟩ := hn.type
    have hvalues : Unambiguous Value.toGraphQL id Value.Stops m.2 n.2 := by
      rw [ht, hu]
      exact Value.unambiguous_placeholder t u
    exact Value.unambiguous_keyed toList_entryText (hcolon hm) (hcolon hn) hvalues
  obtain ⟨hviews, hrest⟩ := text_append_inj_of_row hhead hentries ha hb hr hs h
  rw [List.map_id, List.map_id] at hviews
  obtain ⟨entries, hnodup⟩ := a
  obtain ⟨entries', hnodup'⟩ := b
  obtain rfl : entries = entries' := hviews
  exact ⟨rfl, hrest⟩

/-! ### Directives -/

/-- The directive has a name of the query language, or an empty one, and so have its arguments. -/
structure Directive.WellNamed (d : Directive) : Prop where
  name : d.name ≠ "" → IsName d.name
  arguments : d.arguments.WellNamed

/-- **The text of a directive determines its canonical form** where the text goes on with neither a
name nor a parenthesis. -/
theorem Directive.toGraphQL_append_inj {d e : Directive} (hd : d.IsLawful) (hd' : d.WellNamed)
    (he : e.IsLawful) (he' : e.WellNamed) {r s : List Char} (hr : Leaves isNameChar r)
    (hs : Leaves isNameChar s) (hr' : r.head? ≠ some '(') (hs' : s.head? ≠ some '(')
    (h : d.toGraphQL.toList ++ r = e.toGraphQL.toList ++ s) :
    d.canonical = e.canonical ∧ r = s := by
  have hleaves : ∀ {a : Arguments} {r}, Leaves isNameChar r →
      Leaves isNameChar (a.text.toList ++ r) := by
    intro a r hr
    rw [Arguments.toList_text]
    split
    · exact hr
    · exact leaves_cons _ (by decide)
  rw [toGraphQL_eq, toGraphQL_eq, String.toList_append, String.toList_append, String.toList_append,
    String.toList_append, List.append_assoc, List.append_assoc, List.append_assoc,
    List.append_assoc] at h
  obtain ⟨hname, harguments⟩ := append_inj_of_leaves (nameChars_of_name hd'.name)
    (nameChars_of_name he'.name) (hleaves hr) (hleaves hs) (List.append_cancel_left h)
  obtain ⟨hcanonical, hrest⟩ := Arguments.text_append_inj hd.literals hd'.arguments he.literals
    he'.arguments hr' hs' harguments
  rw [canonical, canonical, hcanonical, String.toList_injective hname]
  exact ⟨rfl, hrest⟩

end QueryComposer
