import Mathlib.Data.Int.Notation
import Mathlib.Data.Nat.Notation
import QueryComposer.Json.Reader
import QueryComposer.Proofs.OrderedMap
import QueryComposer.Proofs.Result

/-!
# What the reader of JSON gives

A text is read as a syntax tree, and the value of the tree is taken from its leaves up.  Whatever
the text, the whole numbers of the value are between `-2 ^ 63` and `2 ^ 64 - 1` and its other
numbers are finite (`Spelling.isKept_of_value?`).  Merging repeated keys makes such a value
*proper*, with no key twice in an object (`IsKept.isProper_merged`).
-/

namespace QueryComposer.Json

/-! ### Induction over nested trees -/

/-- Induction over JSON values: an array or object has the property if what it holds has it. -/
@[elab_as_elim]
theorem nestedInduction {P : Json → Prop} (null : P null) (bool : ∀ b, P (bool b))
    (integer : ∀ n, P (integer n)) (float : ∀ x, P (float x)) (string : ∀ s, P (string s))
    (array : ∀ elements, (∀ j ∈ elements, P j) → P (array elements))
    (object : ∀ members, (∀ m ∈ members, P m.2) → P (object members)) (j : Json) : P j :=
  @Json.rec P (fun elements => ∀ j ∈ elements, P j) (fun members => ∀ m ∈ members, P m.2)
    (fun m => P m.2) null bool integer float string array object
    (fun _ h => absurd h List.not_mem_nil)
    (fun _ _ hj hrest => List.forall_mem_cons.mpr ⟨hj, hrest⟩)
    (fun _ h => absurd h List.not_mem_nil)
    (fun _ _ hm hrest => List.forall_mem_cons.mpr ⟨hm, hrest⟩)
    (fun _ _ hj => hj) j

/-- Induction over syntax trees: an array or object has the property if what it holds has it. -/
@[elab_as_elim]
theorem Spelling.nestedInduction {P : Spelling → Prop} (null : P null) (bool : ∀ b, P (bool b))
    (number : ∀ t, P (number t)) (string : ∀ s, P (string s))
    (array : ∀ elements, (∀ s ∈ elements, P s) → P (array elements))
    (object : ∀ members, (∀ m ∈ members, P m.2) → P (object members)) (s : Spelling) : P s :=
  @Spelling.rec P (fun elements => ∀ s ∈ elements, P s) (fun members => ∀ m ∈ members, P m.2)
    (fun m => P m.2) null bool number string array object
    (fun _ h => absurd h List.not_mem_nil)
    (fun _ _ hs hrest => List.forall_mem_cons.mpr ⟨hs, hrest⟩)
    (fun _ h => absurd h List.not_mem_nil)
    (fun _ _ hm hrest => List.forall_mem_cons.mpr ⟨hm, hrest⟩)
    (fun _ _ hs => hs) s

/-! ### Numbers -/

/-- The numbers of the value are as the reader gives them: whole ones in the range that is kept
whole, others finite. -/
inductive IsKept : Json → Prop where
  | null : IsKept null
  | bool (b : Bool) : IsKept (bool b)
  | integer {n : ℤ} (lower : -9223372036854775808 ≤ n) (upper : n < 18446744073709551616) :
      IsKept (integer n)
  | float {x : Double} (finite : x.isFinite = true) : IsKept (float x)
  | string (s : String) : IsKept (string s)
  | array {elements : List Json} (h : ∀ j ∈ elements, IsKept j) : IsKept (array elements)
  | object {members : List (String × Json)} (h : ∀ m ∈ members, IsKept m.2) :
      IsKept (object members)

namespace Numeral

/-- The whole number that is written by digits alone, with a minus sign or without. -/
def integer? (t : Numeral) : Option ℤ :=
  match t.fraction, t.exponent with
  | none, none => some (if t.negative then -digitsValue t.whole else digitsValue t.whole)
  | _, _ => none

/-- The numeral is `-0`. -/
def IsMinusZero (t : Numeral) : Prop := t.negative = true ∧ t.integer? = some 0

instance (t : Numeral) : Decidable t.IsMinusZero := inferInstanceAs (Decidable (_ ∧ _))

theorem exists_of_toFloat? {t : Numeral} {j : Json} (h : t.toFloat? = some j) :
    ∃ x, j = .float x ∧ x.isFinite = true := by
  unfold toFloat? at h
  dsimp only at h
  split at h
  · rename_i hfinite
    exact ⟨_, (Option.some.inj h).symm, hfinite⟩
  · cases h

/-- A whole number is kept whole in the range, and any other than `-0` that is kept whole is. -/
theorem value?_of_integer? {t : Numeral} {n : ℤ} (hn : t.integer? = some n) :
    t.value? = if isKeptWhole n = true ∧ ¬t.IsMinusZero then some (.integer n) else t.toFloat? := by
  unfold integer? at hn
  split at hn
  · rename_i hfraction hexponent
    obtain rfl := Option.some.inj hn
    have hzero : (t.negative && digitsValue t.whole == 0) = decide t.IsMinusZero := by
      rw [Bool.eq_iff_iff, decide_eq_true_iff, IsMinusZero, integer?, hfraction, hexponent]
      cases t.negative <;> simp
    rw [value?, hfraction, hexponent]
    simp only [hzero, Bool.and_eq_true, Bool.not_eq_true', decide_eq_false_iff_not]
  · cases hn

/-- A numeral with a fraction or an exponent is never whole. -/
theorem integer?_eq_none_iff {t : Numeral} :
    t.integer? = none ↔ t.fraction ≠ none ∨ t.exponent ≠ none := by
  unfold integer?
  cases t.fraction <;> cases t.exponent <;> simp

theorem value?_of_integer?_eq_none {t : Numeral} (h : t.integer? = none) :
    t.value? = t.toFloat? := by
  unfold integer? at h
  unfold value?
  cases hfraction : t.fraction with
  | some digits => rfl
  | none =>
    cases hexponent : t.exponent with
    | some e => rfl
    | none =>
      rw [hfraction, hexponent] at h
      cases h

theorem value?_cases {t : Numeral} {j : Json} (h : t.value? = some j) :
    (∃ n, j = .integer n ∧ isKeptWhole n = true) ∨ ∃ x, j = .float x ∧ x.isFinite = true := by
  -- Without fraction and exponent the range decides, and otherwise it is a double.
  cases hn : t.integer? with
  | none => exact .inr (exists_of_toFloat? (value?_of_integer?_eq_none hn ▸ h))
  | some n =>
    rw [value?_of_integer? hn] at h
    split at h
    · rename_i hkept
      exact .inl ⟨n, (Option.some.inj h).symm, hkept.1⟩
    · exact .inr (exists_of_toFloat? h)

theorem isKept_of_value? {t : Numeral} {j : Json} (h : t.value? = some j) : j.IsKept := by
  rcases value?_cases h with ⟨n, rfl, hkept⟩ | ⟨x, rfl, hx⟩
  · unfold isKeptWhole at hkept
    rw [Bool.and_eq_true] at hkept
    exact .integer (of_decide_eq_true hkept.1) (of_decide_eq_true hkept.2)
  · exact .float hx

end Numeral

/-! ### Values of syntax trees -/

theorem elementValues?_eq_mapM (elements : List Spelling) :
    elementValues? elements = elements.mapM Spelling.value? := by
  induction elements with
  | nil => rfl
  | cons s rest ih => rw [elementValues?, ih, List.mapM_cons]

theorem memberValues?_eq_mapM (members : List (String × Spelling)) :
    memberValues? members = members.mapM fun m => m.2.value?.map fun j => (m.1, j) := by
  induction members with
  | nil => rfl
  | cons m rest ih =>
    rw [memberValues?, ih, List.mapM_cons]
    cases m.2.value? <;> rfl

theorem Spelling.value?_array {elements : List Spelling} {j : Json}
    (h : (Spelling.array elements).value? = some j) :
    ∃ js, j = .array js ∧ elements.mapM Spelling.value? = some js := by
  rw [value?, elementValues?_eq_mapM] at h
  obtain ⟨js, hjs, h⟩ := Option.bind_eq_some_iff.mp h
  exact ⟨js, (Option.some.inj h).symm, hjs⟩

theorem Spelling.value?_object {members : List (String × Spelling)} {j : Json}
    (h : (Spelling.object members).value? = some j) :
    ∃ ms, j = .object ms ∧ members.mapM (fun m => m.2.value?.map fun j => (m.1, j)) = some ms := by
  rw [value?, memberValues?_eq_mapM] at h
  obtain ⟨ms, hms, h⟩ := Option.bind_eq_some_iff.mp h
  exact ⟨ms, (Option.some.inj h).symm, hms⟩

/-- **What is read has only numbers that are kept**, whatever the text. -/
theorem Spelling.isKept_of_value? (s : Spelling) : ∀ {j}, s.value? = some j → j.IsKept := by
  induction s using Spelling.nestedInduction with
  | null =>
    rintro j ⟨⟩
    exact .null
  | bool b =>
    rintro j ⟨⟩
    exact .bool b
  | string s =>
    rintro j ⟨⟩
    exact .string s
  | number t =>
    intro j h
    exact Numeral.isKept_of_value? h
  | array elements ih =>
    intro j h
    obtain ⟨js, rfl, hjs⟩ := value?_array h
    refine .array fun j hj => ?_
    obtain ⟨s, hs, hj⟩ := mem_of_mapM_eq_some hjs j hj
    exact ih s hs hj
  | object members ih =>
    intro j h
    obtain ⟨ms, rfl, hms⟩ := value?_object h
    refine .object fun m hm => ?_
    obtain ⟨m', hm', heq⟩ := mem_of_mapM_eq_some hms m hm
    obtain ⟨j, hj, rfl⟩ := Option.map_eq_some_iff.mp heq
    exact ih m' hm' hj

theorem isKept_of_parseWithin {depth : ℕ} {text : String} {j : Json}
    (h : parseWithin depth text = some j) : j.IsKept := by
  obtain ⟨s, -, hj⟩ := Option.bind_eq_some_iff.mp h
  exact s.isKept_of_value? hj

/-! ### Merged values -/

theorem merged_array (elements : List Json) :
    (array elements).merged = array (elements.map merged) := by
  have hmap : mergedElements elements = elements.map merged := by
    induction elements with
    | nil => rfl
    | cons j rest ih => rw [mergedElements, ih, List.map_cons]
  rw [merged, hmap]

theorem merged_object (members : List (String × Json)) :
    (object members).merged =
      object (Entries.collect (members.map fun m => (m.1, m.2.merged))) := by
  have hmap : mergedMembers members = members.map fun m => (m.1, m.2.merged) := by
    induction members with
    | nil => rfl
    | cons m rest ih => rw [mergedMembers, ih, List.map_cons]
  rw [merged, hmap]

/-! ### Proper values -/

/-- The value is one that is kept of a text: its numbers are as the reader gives them and no object
in it has a key twice. -/
inductive IsProper : Json → Prop where
  | null : IsProper null
  | bool (b : Bool) : IsProper (bool b)
  | integer {n : ℤ} (lower : -9223372036854775808 ≤ n) (upper : n < 18446744073709551616) :
      IsProper (integer n)
  | float {x : Double} (finite : x.isFinite = true) : IsProper (float x)
  | string (s : String) : IsProper (string s)
  | array {elements : List Json} (h : ∀ j ∈ elements, IsProper j) : IsProper (array elements)
  | object {members : List (String × Json)} (h : ∀ m ∈ members, IsProper m.2)
      (nodup_keys : (Entries.keys members).Nodup) : IsProper (object members)

theorem IsProper.isKept {j : Json} (h : j.IsProper) : j.IsKept := by
  induction h with
  | null => exact .null
  | bool b => exact .bool b
  | integer lower upper => exact .integer lower upper
  | float finite => exact .float finite
  | string s => exact .string s
  | array _ ih => exact .array ih
  | object _ _ ih => exact .object ih

/-- **Merging repeated keys gives a proper value.** -/
theorem IsKept.isProper_merged {j : Json} (h : j.IsKept) : j.merged.IsProper := by
  induction h with
  | null => exact .null
  | bool b => exact .bool b
  | integer lower upper => exact .integer lower upper
  | float finite => exact .float finite
  | string s => exact .string s
  | array _ ih =>
    rw [merged_array]
    refine .array fun j hj => ?_
    obtain ⟨j', hj', rfl⟩ := List.mem_map.mp hj
    exact ih j' hj'
  | object _ ih =>
    rw [merged_object]
    refine .object (fun m hm => ?_) (Entries.nodup_keys_collect _)
    obtain ⟨m', hm', rfl⟩ := List.mem_map.mp (Entries.mem_collect hm)
    exact ih m' hm'

theorem IsKept.merged {j : Json} (h : j.IsKept) : j.merged.IsKept := h.isProper_merged.isKept

end QueryComposer.Json
