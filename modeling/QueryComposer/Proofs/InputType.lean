import Mathlib.Data.List.DropRight
import Mathlib.Data.List.TakeWhile
import QueryComposer.BuildError

/-!
# Reading types

What is left of a text without the white space at its ends is told by a relation, `Text.TrimsTo`,
which the trimming computes (`Text.trim_eq_iff`).  Up to this white space a type is read from what
it is written as, and from nothing else (`InputType.parse_eq_ok_iff`).
-/

namespace QueryComposer

/-! ### White space at the ends -/

namespace Text

/-- The second text is the first without the white space at its ends: it lies between white space
and neither begins nor ends with any. -/
structure TrimsTo (s t : String) : Prop where
  between : ∃ before after, s.toList = before ++ t.toList ++ after ∧
    (∀ c ∈ before, isBlank c = true) ∧ ∀ c ∈ after, isBlank c = true
  head : ∀ c ∈ t.toList.head?, isBlank c = false
  last : ∀ c ∈ t.toList.getLast?, isBlank c = false

theorem dropWhile_of_head? {p : Char → Bool} {cs : List Char} (h : ∀ c ∈ cs.head?, p c = false) :
    cs.dropWhile p = cs := by
  cases cs with
  | nil => rfl
  | cons c cs =>
    have hc : ¬p c = true := by
      rw [h c rfl]
      decide
    exact List.dropWhile_cons_of_neg hc

theorem head?_dropWhile (p : Char → Bool) (cs : List Char) :
    ∀ c ∈ (cs.dropWhile p).head?, p c = false := by
  intro c hc
  have hnot := List.head?_dropWhile_not p cs
  rw [Option.mem_def.mp hc] at hnot
  exact hnot

theorem toList_trim (s : String) :
    (trim s).toList = (s.toList.dropWhile isBlank).rdropWhile isBlank :=
  String.toList_ofList

theorem trimsTo_trim (s : String) : TrimsTo s (trim s) := by
  have hsplit : s.toList.dropWhile isBlank =
      (trim s).toList ++ (s.toList.dropWhile isBlank).rtakeWhile isBlank := by
    rw [toList_trim, List.rdropWhile_append_rtakeWhile]
  constructor
  case between =>
    have hsides : s.toList = s.toList.takeWhile isBlank ++ (trim s).toList ++
        (s.toList.dropWhile isBlank).rtakeWhile isBlank := by
      rw [List.append_assoc, ← hsplit, List.takeWhile_append_dropWhile]
    exact ⟨_, _, hsides, fun _ hc => List.mem_takeWhile_imp hc,
      fun _ hc => List.mem_rtakeWhile_imp hc⟩
  case head =>
    intro c hc
    refine head?_dropWhile isBlank s.toList c ?_
    rw [hsplit, List.head?_append, hc]
    rfl
  case last =>
    rw [toList_trim, List.rdropWhile, List.getLast?_reverse]
    exact head?_dropWhile isBlank _

theorem TrimsTo.trim_eq {s t : String} (h : TrimsTo s t) : trim s = t := by
  obtain ⟨⟨before, after, hs, hbefore, hafter⟩, hhead, hlast⟩ := h
  apply String.toList_injective
  rw [trim, String.toList_ofList, trimChars, hs, List.append_assoc,
    List.dropWhile_append_of_pos hbefore]
  -- Where nothing is left, what is after is dropped from the front, and else from the back.
  by_cases ht : t.toList = []
  · rw [ht, List.nil_append, List.dropWhile_eq_nil_iff.mpr hafter]
    rfl
  · have hfront : (t.toList ++ after).dropWhile isBlank = t.toList ++ after := by
      refine dropWhile_of_head? fun c hc => hhead c ?_
      rwa [List.head?_append_of_ne_nil _ ht] at hc
    have hback : t.toList.reverse.dropWhile isBlank = t.toList.reverse := by
      refine dropWhile_of_head? fun c hc => hlast c ?_
      rwa [List.head?_reverse] at hc
    rw [hfront, List.reverse_append,
      List.dropWhile_append_of_pos fun c hc => hafter c (List.mem_reverse.mp hc), hback,
      List.reverse_reverse]

/-- The trimming leaves what is between the white space, and that alone. -/
theorem trim_eq_iff {s t : String} : trim s = t ↔ TrimsTo s t :=
  ⟨fun h => h ▸ trimsTo_trim s, TrimsTo.trim_eq⟩

end Text

/-! ### Types -/

theorem InputKind.ofName?_eq_some_iff {name : String} {kind : InputKind} :
    ofName? name = some kind ↔ name = kind.name := by
  constructor
  · intro h
    have hfound := List.find?_some h
    exact (beq_iff_eq.mp hfound).symm
  · rintro rfl
    cases kind <;> decide

namespace InputType

/-- A type is read from the name that it is written as. -/
theorem ofName?_toGraphQL (t : InputType) : ofName? t.toGraphQL = some t := by
  obtain ⟨kind, required⟩ := t
  cases kind <;> cases required <;> decide

/-- No other name is read as the type. -/
theorem eq_toGraphQL_of_ofName? {name : String} {t : InputType} (h : ofName? name = some t) :
    name = t.toGraphQL := by
  unfold ofName? at h
  split at h
  · rename_i hlast
    obtain ⟨kind, hkind, rfl⟩ := Option.map_eq_some_iff.mp h
    have hname : String.ofList name.toList.dropLast = kind.name :=
      InputKind.ofName?_eq_some_iff.mp hkind
    apply String.toList_injective
    show name.toList = ("" ++ kind.name ++ "!").toList
    rw [String.empty_append, ← hname, String.toList_append, String.toList_ofList]
    exact (List.dropLast_append_getLast? '!' hlast).symm
  · obtain ⟨kind, hkind, rfl⟩ := Option.map_eq_some_iff.mp h
    show name = "" ++ kind.name
    rw [InputKind.ofName?_eq_some_iff.mp hkind, String.empty_append]

theorem ofName?_eq_some_iff {name : String} {t : InputType} :
    ofName? name = some t ↔ name = t.toGraphQL :=
  ⟨eq_toGraphQL_of_ofName?, fun h => h ▸ ofName?_toGraphQL t⟩

theorem parse_eq_ok_iff {s : String} {t : InputType} :
    parse s = .ok t ↔ Text.TrimsTo s t.toGraphQL := by
  rw [← Text.trim_eq_iff, ← ofName?_eq_some_iff, parse]
  cases ofName? (Text.trim s) with
  | none => simp
  | some u => simp

/-- What is found in reading the text as a type. -/
def finding? (s : String) : Option Finding :=
  match ofName? (Text.trim s) with
  | some _ => none
  | none => some (.unknownType (Text.trim s))

theorem finding?_eq_none_iff {s : String} : finding? s = none ↔ ∃ t, parse s = .ok t := by
  rw [finding?, parse]
  cases ofName? (Text.trim s) with
  | none => simp
  | some t => simp

/-- The error of a text that is not read has no path. -/
theorem parse_eq_error_iff {s : String} {e : BuildError} :
    parse s = .error e ↔ ∃ found, finding? s = some found ∧ e = .unsupportedValue "" found := by
  rw [finding?, parse]
  cases ofName? (Text.trim s) with
  | none => simp [eq_comm]
  | some t => simp

theorem finding?_eq_some_iff {s : String} {found : Finding} :
    finding? s = some found ↔ (∀ t, parse s ≠ .ok t) ∧ found = .unknownType (Text.trim s) := by
  rw [finding?, parse]
  cases ofName? (Text.trim s) with
  | none => simp [eq_comm]
  | some t => simp

end InputType

end QueryComposer
