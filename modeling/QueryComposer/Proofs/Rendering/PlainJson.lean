import QueryComposer.Proofs.Description.Layout
import QueryComposer.Proofs.Json.RoundTrip
import QueryComposer.Proofs.Value.Conversion

/-!
# Plain JSON in argument values

Argument values are written without escapes, and a string that begins with a dollar sign without
quotes.  JSON in which nothing calls for either is *plain*.  The text of the argument value that is
made of it differs from JSON text only by blanks behind commas and colons, so that a reader of JSON
gets back what the value was made of.

Main statement: `Value.parse_toGraphQL_of_isPlain`.
-/

namespace QueryComposer

namespace Json

/-- No character of the text needs an escape. -/
def IsPlainText (s : String) : Prop := ∀ c ∈ s.toList, c ≠ '"' ∧ c ≠ '\\' ∧ 0x20 ≤ c.toNat

instance (s : String) : Decidable (IsPlainText s) := List.decidableBAll _ s.toList

/-- There is no `null` in the value, its whole numbers are 64-bit signed ones, its texts need no
escapes, and those that are not keys do not begin with a dollar sign. -/
inductive IsPlain : Json → Prop where
  | bool (b : Bool) : IsPlain (bool b)
  | integer {n : ℤ} (lower : -9223372036854775808 ≤ n) (upper : n ≤ 9223372036854775807) :
      IsPlain (integer n)
  | float {x : Double} (finite : x.isFinite = true) : IsPlain (float x)
  | string {s : String} (plain : IsPlainText s) (quoted : s.toList.head? ≠ some '$') :
      IsPlain (string s)
  | array {elements : List Json} (h : ∀ j ∈ elements, IsPlain j) : IsPlain (array elements)
  | object {members : List (String × Json)} (h : ∀ m ∈ members, IsPlain m.2)
      (plain_keys : ∀ key ∈ Entries.keys members, IsPlainText key)
      (nodup_keys : (Entries.keys members).Nodup) : IsPlain (object members)

theorem IsPlain.isProper {j : Json} (h : j.IsPlain) : j.IsProper := by
  induction h with
  | bool b => exact .bool b
  | integer lower upper => exact .integer lower (by omega)
  | float finite => exact .float finite
  | @string s => exact .string s
  | array _ ih => exact .array ih
  | object _ _ hnodup ih => exact .object ih hnodup

/-- Nothing in a plain value lacks a counterpart. -/
theorem IsPlain.finding?_eq_none {j : Json} (h : j.IsPlain) :
    ∀ place ∈ j.places, place.2.finding? = none := by
  induction h with
  | bool | float | string => simp [places, finding?]
  | integer _ upper => simpa [places, finding?] using upper
  | array _ ih =>
    rintro ⟨p, x⟩ hplace
    rw [places, List.mem_cons, mem_elementPlaces] at hplace
    rcases hplace with ⟨⟨⟩⟩ | ⟨i, j, q, hj, -, hq⟩
    · rfl
    · exact ih j (List.mem_of_getElem? hj) (q, x) hq
  | object _ _ _ ih =>
    rintro ⟨p, x⟩ hplace
    rw [places, List.mem_cons, mem_memberPlaces] at hplace
    rcases hplace with ⟨⟨⟩⟩ | ⟨m, hm, q, -, hq⟩
    · rfl
    · exact ih m hm (q, x) hq

/-! ### Texts -/

theorem escapedChar_of_plain {c : Char} (hquote : c ≠ '"') (hbackslash : c ≠ '\\')
    (hcontrol : 0x20 ≤ c.toNat) : escapedChar c = [c] := by
  have hne : ∀ d : Char, d.toNat < 0x20 → c ≠ d := by
    rintro d hd rfl
    omega
  rw [escapedChar, if_neg hquote, if_neg hbackslash, if_neg (hne _ (by decide)),
    if_neg (hne _ (by decide)), if_neg (hne _ (by decide)), if_neg (hne _ (by decide)),
    if_neg (hne _ (by decide)), if_neg (by omega)]

/-- A plain text between quotes is a string literal. -/
theorem literal_of_isPlainText {s : String} (h : IsPlainText s) :
    literal s = "\"" ++ s ++ "\"" := by
  have hchars : s.toList.flatMap escapedChar = s.toList := by
    have heach : ∀ c ∈ s.toList, escapedChar c = [c] := fun c hc =>
      escapedChar_of_plain (h c hc).1 (h c hc).2.1 (h c hc).2.2
    rw [List.flatMap_congr heach, List.flatMap_singleton']
  apply String.toList_injective
  rw [toList_literal, hchars, String.toList_append, String.toList_append]
  rfl

/-- The text laid out for a plain value is read as the value. -/
theorem reads_layout {j : Json} (h : j.IsPlain) : Opens j.layout.toList ∧ Reads j.layout j := by
  have hcomma : IsMark ',' ", " := ⟨[' '], rfl, List.forall_mem_singleton.mpr rfl⟩
  have hcolon : IsMark ':' ": " := ⟨[' '], rfl, List.forall_mem_singleton.mpr rfl⟩
  induction h with
  | bool b =>
    rw [layout]
    exact reads_bool b
  | integer lower upper =>
    rw [layout]
    exact reads_of_readNumeral fun hrest => value?_readNumeral_int lower (by omega) hrest
  | float finite =>
    rw [layout]
    exact reads_of_readNumeral fun hrest => Value.numberStyle.value?_text finite hrest
  | @string s plain quoted =>
    rw [layout, Layout.string, if_neg quoted, ← literal_of_isPlainText plain]
    exact reads_literal s
  | array _ ih =>
    rw [layout, layoutElements_eq_map]
    exact reads_array hcomma ih
  | @object members _ hkeys _ ih =>
    -- A key that needs no escapes is written as its literal.
    have htexts : (layoutMembers members).map (fun m => "\"" ++ m.1 ++ "\": " ++ m.2) =
        members.map (memberText ": " layout) := by
      rw [layoutMembers_eq_map, List.map_map]
      refine List.map_congr_left fun m hm => ?_
      have hkey : literal m.1 = "\"" ++ m.1 ++ "\"" :=
        literal_of_isPlainText (hkeys m.1 (List.mem_map_of_mem hm))
      have hquote : "\": " = "\"" ++ ": " := rfl
      show "\"" ++ m.1 ++ "\": " ++ m.2.layout = memberText ": " layout m
      rw [memberText, hkey, hquote]
      simp only [String.append_assoc]
    have hlayout : (object members).layout =
        "\x7b" ++ ", ".intercalate (members.map (memberText ": " layout)) ++ "\x7d" := by
      rw [layout, ← htexts]
      rfl
    rw [hlayout]
    exact reads_object hcomma hcolon fun m hm => (ih m hm).2

end Json

namespace Value

/-- **Plain JSON is read back from the text of the argument value that is made of it.** -/
theorem parse_toGraphQL_of_isPlain {j : Json} (h : j.IsPlain) :
    ∃ v, ofJson j = .ok v ∧ Json.parse v.toGraphQL = some j := by
  have hcomplaints : complaints Json.finding? "" j.places = [] :=
    complaints_eq_nil_iff.mpr h.finding?_eq_none
  obtain ⟨v, hv⟩ := (settles_complaints h.isProper "").eq_ok_iff.mpr hcomplaints
  refine ⟨v, hv, ?_⟩
  rw [toGraphQL_eq_layout, layout_of_ofJsonAt h.isProper hv]
  exact Json.parseWithin_of_reads (Json.reads_layout h).2 le_rfl

/-- The least and the greatest whole number, a negative zero, empty brackets at depth, and texts in
which a bracket, a comma and a dollar sign stand. -/
theorem parse_toGraphQL_of_isPlain_nested :
    let range : Json := .array [.integer (-9223372036854775808), .integer 9223372036854775807]
    let filter : Json := .object [("$in", range), ("", .object []), ("not", .array [.array []])]
    let j : Json := .object
      [("filter", filter), ("after", .string "], \x7b$a"), ("ratio", .float (.ofRank true 0))]
    let text := "\x7b\"filter\": \x7b\"$in\": [-9223372036854775808, 9223372036854775807], " ++
      "\"\": \x7b\x7d, \"not\": [[]]\x7d, \"after\": \"], \x7b$a\", \"ratio\": -0.0\x7d"
    j.IsPlain ∧ ∃ v, ofJson j = .ok v ∧ v.toGraphQL = text ∧ Json.parse v.toGraphQL = some j := by
  intro range filter j text
  have hrange : range.IsPlain := .array (by
    simpa [range] using ⟨.integer (by decide) (by decide), .integer (by decide) (by decide)⟩)
  have hempty : (Json.object []).IsPlain := .object (by simp) (by decide) (by decide)
  have hnot : (Json.array [.array []]).IsPlain := .array (by simpa using .array (by simp))
  have hfilter : filter.IsPlain :=
    .object (by simpa [filter] using ⟨hrange, hempty, hnot⟩) (by decide) (by decide)
  have hafter : (Json.string "], \x7b$a").IsPlain := .string (by decide) (by decide)
  have hratio : (Json.float (.ofRank true 0)).IsPlain := .float (by decide)
  have hj : j.IsPlain :=
    .object (by simpa [j] using ⟨hfilter, hafter, hratio⟩) (by decide) (by decide)
  obtain ⟨v, hv, hread⟩ := parse_toGraphQL_of_isPlain hj
  have htext : (ofJson j).toOption.map toGraphQL = some text := by decide +kernel
  rw [hv] at htext
  exact ⟨hj, v, hv, Option.some.inj htext, hread⟩

end Value

end QueryComposer
