import Mathlib.Data.List.Forall2
import QueryComposer.Proofs.Places
import QueryComposer.Proofs.Value.Integers

/-!
# What becomes of a JSON value

A JSON value is made into an argument value of the same shape unless something in it has no
counterpart: a `null` or a whole number above the 64-bit signed ones.  Then the first such leaf in
the order of the text is reported under the path to it.

Main statement: `Value.converts_ofJsonArgument`.
-/

namespace QueryComposer

/-! ### Leaves without counterpart -/

namespace Json

/-- What is found if the value itself, whatever stands in it, has no counterpart. -/
def finding? : Json → Option Finding
  | null => some .null
  | integer n => if 9223372036854775807 < n then some (.integerBeyondRange n) else none
  | _ => none

theorem refusedElements_eq {elements : List Json} {path : String}
    (h : ∀ j ∈ elements, ∀ path, j.refused path = complaints finding? path j.places) :
    ∀ index, refusedElements path index elements =
      complaints finding? path (elementPlaces index elements) := by
  induction elements with
  | nil => exact fun _ => rfl
  | cons j rest ih =>
    obtain ⟨hj, hrest⟩ := List.forall_mem_cons.mp h
    intro index
    rw [refusedElements, elementPlaces, complaints_append, complaints_placeAfter, hj, ih hrest]
    rfl

theorem refusedMembers_eq {members : List (String × Json)} {path : String}
    (h : ∀ m ∈ members, ∀ path, m.2.refused path = complaints finding? path m.2.places) :
    refusedMembers path members = complaints finding? path (memberPlaces members) := by
  induction members with
  | nil => rfl
  | cons m rest ih =>
    obtain ⟨hm, hrest⟩ := List.forall_mem_cons.mp h
    rw [refusedMembers, memberPlaces, complaints_append, complaints_placeAfter, hm, ih hrest]
    rfl

/-- What is refused are the complaints about the places. -/
theorem refused_eq (j : Json) : ∀ path, j.refused path = complaints finding? path j.places := by
  induction j using nestedInduction with
  | null | bool | float | string => exact fun _ => rfl
  | integer n =>
    intro path
    by_cases hn : 9223372036854775807 < n
    · simp [refused, places, complaints, finding?, hn, pathAt]
    · simp [refused, places, complaints, finding?, hn]
  | array elements ih =>
    intro path
    rw [refused, places, complaints_cons, refusedElements_eq ih]
    rfl
  | object members ih =>
    intro path
    rw [refused, places, complaints_cons, refusedMembers_eq ih]
    rfl

end Json

namespace Value

/-! ### Values of the same shape -/

/-- The argument value agrees with the JSON value at every depth: elements in the same order,
members under the same keys in the same order, and the same leaves, whole numbers as such. -/
inductive Mirrors : Value → Json → Prop where
  | boolean (b : Bool) : Mirrors (boolean b) (.bool b)
  | int {m : Int64} {n : ℤ} : m.toInt = n → Mirrors (int m) (.integer n)
  | float (x : Double) : Mirrors (float x) (.float x)
  | string (s : String) : Mirrors (string s) (.string s)
  | list {vs : List Value} {js : List Json} : List.Forall₂ Mirrors vs js →
      Mirrors (list vs) (.array js)
  | object {ms : List (String × Value)} {members : List (String × Json)} :
      Entries.keys ms = Entries.keys members →
      List.Forall₂ Mirrors (ms.map Prod.snd) (members.map Prod.snd) →
      Mirrors (object ms) (.object members)

theorem mirrors_of_ofElementsAt {path : String} {elements : List Json}
    (h : ∀ j ∈ elements, ∀ {path v}, ofJsonAt path j = .ok v → v.Mirrors j) :
    ∀ {index vs}, ofElementsAt path index elements = .ok vs →
      List.Forall₂ Mirrors vs elements := by
  induction elements with
  | nil =>
    rintro index vs ⟨⟩
    exact .nil
  | cons j rest ih =>
    obtain ⟨hj, hrest⟩ := List.forall_mem_cons.mp h
    intro index vs hvs
    rw [ofElementsAt] at hvs
    obtain ⟨v, hv, hvs⟩ := bind_eq_ok_iff.mp hvs
    obtain ⟨others, hothers, hvs⟩ := bind_eq_ok_iff.mp hvs
    obtain rfl := Except.ok.inj hvs
    exact .cons (hj hv) (ih hrest hothers)

theorem mirrors_of_ofMembersAt {path : String} {members : List (String × Json)}
    (h : ∀ m ∈ members, ∀ {path v}, ofJsonAt path m.2 = .ok v → v.Mirrors m.2) :
    ∀ {ms}, ofMembersAt path members = .ok ms → Entries.keys ms = Entries.keys members ∧
      List.Forall₂ Mirrors (ms.map Prod.snd) (members.map Prod.snd) := by
  induction members with
  | nil =>
    rintro ms ⟨⟩
    exact ⟨rfl, .nil⟩
  | cons m rest ih =>
    obtain ⟨hm, hrest⟩ := List.forall_mem_cons.mp h
    intro ms hms
    rw [ofMembersAt] at hms
    obtain ⟨v, hv, hms⟩ := bind_eq_ok_iff.mp hms
    obtain ⟨others, hothers, hms⟩ := bind_eq_ok_iff.mp hms
    obtain rfl := Except.ok.inj hms
    obtain ⟨hkeys, hvalues⟩ := ih hrest hothers
    exact ⟨congrArg (m.1 :: ·) hkeys, .cons (hm hv) hvalues⟩

/-- What is made of a proper JSON value agrees with it. -/
theorem mirrors_of_ofJsonAt {j : Json} (h : j.IsProper) :
    ∀ {path v}, ofJsonAt path j = .ok v → v.Mirrors j := by
  induction h with
  | null =>
    rintro path v ⟨⟩
  | bool b =>
    rintro path v ⟨⟩
    exact .boolean b
  | integer =>
    intro path v hv
    obtain ⟨m, hm, rfl⟩ := exists_int_of_ofJsonAt hv
    exact .int hm
  | float =>
    rintro path v ⟨⟩
    exact .float _
  | string s =>
    rintro path v ⟨⟩
    exact .string s
  | array _ ih =>
    intro path v hv
    obtain ⟨vs, rfl, hvs⟩ := ofJsonAt_array hv
    exact .list (mirrors_of_ofElementsAt ih hvs)
  | object _ hnodup ih =>
    intro path v hv
    obtain ⟨ms, rfl, hms⟩ := ofJsonAt_object hv
    obtain ⟨hkeys, hvalues⟩ := mirrors_of_ofMembersAt ih hms
    -- No key occurs twice, so no member is written over another.
    rw [Entries.collect_of_nodup (hkeys ▸ hnodup)]
    exact .object hkeys hvalues

/-! ### The conversion of an argument -/

/-- How the conversion of the JSON value of an argument comes out. -/
structure Converts (argument : String) (j : Json) (result : Except BuildError Value) : Prop where
  /-- It succeeds when everything that stands in the JSON value has a counterpart. -/
  ok_iff : (∃ v, result = .ok v) ↔ ∀ p x, j.at? p = some x → x.finding? = none
  /-- What is made agrees with the JSON value. -/
  mirrors {v : Value} : result = .ok v → v.Mirrors j
  /-- Otherwise the first leaf without counterpart is reported, with its path and kind. -/
  error_iff {e : BuildError} : result = .error e ↔
    ∃ p found, FirstFound Json.finding? j.places p found ∧
      e = .unsupportedValue (pathAt argument p) found

/-- The conversion settles on the complaints about the places. -/
theorem settles_complaints {j : Json} (h : j.IsProper) (path : String) :
    Settles HasLiteral (ofJsonAt path j) (complaints Json.finding? path j.places) := by
  rw [← Json.refused_eq]
  exact settles_ofJsonAt h.isKept path

/-- **A JSON value is converted whole, or refused for the first leaf without counterpart.** -/
theorem converts_ofJsonArgument (argument : String) {j : Json} (h : j.IsProper) :
    Converts argument j (ofJsonArgument argument j) := by
  have hsettles : Settles HasLiteral (ofJsonArgument argument j)
      (complaints Json.finding? argument j.places) := settles_complaints h argument
  refine ⟨?ok, fun hv => mirrors_of_ofJsonAt h hv, hsettles.eq_error_iff.trans head?_complaints⟩
  rw [hsettles.eq_ok_iff, complaints_eq_nil_iff]
  constructor
  · intro hnone p x hx
    exact hnone (p, x) ((Json.mem_places_iff h).mpr hx)
  · rintro hnone ⟨p, x⟩ hplace
    exact hnone p x ((Json.mem_places_iff h).mp hplace)

/-- A `null` under an empty key in an array is reported, and not the whole number after it that is
too large. -/
theorem converts_ofJsonArgument_null :
    let ids : List Json :=
      [.integer 9223372036854775807, .object [("", .null)], .integer 9223372036854775808]
    let j : Json := .object [("ids", .array ids)]
    j.IsProper ∧ Converts "filter" j (ofJsonArgument "filter" j) ∧
      ofJsonArgument "filter" j = .error (.unsupportedValue "filter.ids[1]." .null) := by
  intro ids j
  have hmember : (Json.object [("", .null)]).IsProper :=
    .object (by simpa using .null) (by decide)
  have hids : ∀ i ∈ ids, i.IsProper := by
    simpa [ids] using
      ⟨.integer (by decide) (by decide), hmember, .integer (by decide) (by decide)⟩
  have hj : j.IsProper := .object (by simpa [j] using .array hids) (by decide)
  have hconverts := converts_ofJsonArgument "filter" hj
  have hfirst : FirstFound Json.finding? j.places [.key "ids", .index 1, .key ""] .null :=
    ⟨j.places.take 4, _, j.places.drop 5, rfl, by decide, rfl⟩
  exact ⟨hj, hconverts, hconverts.error_iff.mpr ⟨_, _, hfirst, rfl⟩⟩

end Value

end QueryComposer
