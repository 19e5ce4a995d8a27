import Mathlib.Algebra.Ring.Int.Defs
import QueryComposer.Proofs.Description.Arguments
import QueryComposer.Proofs.Position
import QueryComposer.Proofs.Value.Refused

/-!
# What becomes of whole numbers

A whole number that is written by digits alone is followed from the text to the argument value that
is made of it (`integers_of_text`).  From `-2 ^ 63` to `2 ^ 63 - 1` it stays exactly what it is, and
from `2 ^ 63` to `2 ^ 64 - 1` the conversion is refused.  The rest is *narrowed* when the text is
read: `-0` and everything farther out is a double before the conversion sees it, so that it passes
without complaint.
-/

namespace QueryComposer

namespace Json

/-- The whole number `n`, as it is written, is read as a double. -/
def Numeral.IsNarrowed (t : Numeral) (n : ℤ) : Prop :=
  t.IsMinusZero ∨ n < -2 ^ 63 ∨ 2 ^ 64 ≤ n

theorem Numeral.value?_of_not_isNarrowed {t : Numeral} {n : ℤ} (hn : t.integer? = some n)
    (h : ¬t.IsNarrowed n) : t.value? = some (.integer n) := by
  unfold IsNarrowed at h
  rw [not_or, not_or, Int.not_lt, Int.not_le] at h
  obtain ⟨hzero, hlower, hupper⟩ := h
  have hkept : isKeptWhole n = true := by
    unfold isKeptWhole
    rw [Bool.and_eq_true, decide_eq_true_iff, decide_eq_true_iff]
    omega
  rw [value?_of_integer? hn, if_pos ⟨hkept, hzero⟩]

theorem Numeral.value?_of_isNarrowed {t : Numeral} {n : ℤ} (hn : t.integer? = some n)
    (h : t.IsNarrowed n) : t.value? = t.toFloat? := by
  rw [value?_of_integer? hn, if_neg]
  rintro ⟨hkept, hzero⟩
  unfold isKeptWhole at hkept
  rw [Bool.and_eq_true, decide_eq_true_iff, decide_eq_true_iff] at hkept
  rcases h with h | h | h
  · exact hzero h
  · omega
  · omega

/-! ### Parts of a text -/

/-- The first syntax tree stands somewhere in the second, or is it. -/
inductive Spelling.Occurs (r : Spelling) : Spelling → Prop where
  | here : Occurs r r
  | element {s : Spelling} {elements : List Spelling} : s ∈ elements → Occurs r s →
      Occurs r (.array elements)
  | member {key : String} {s : Spelling} {members : List (String × Spelling)} :
      (key, s) ∈ members → Occurs r s → Occurs r (.object members)

theorem Spelling.Occurs.trans {q r s : Spelling} (hqr : Occurs q r) (hrs : Occurs r s) :
    Occurs q s := by
  induction hrs with
  | here => exact hqr
  | element hs _ ih => exact .element hs ih
  | member hs _ ih => exact .member hs ih

/-- The value is what some part of the syntax tree writes. -/
def WrittenIn (s : Spelling) (j : Json) : Prop :=
  ∃ part : Spelling, part.Occurs s ∧ part.value? = some j

/-- Only an array writes an array. -/
theorem Spelling.exists_of_value?_array {s : Spelling} {js : List Json}
    (h : s.value? = some (.array js)) :
    ∃ elements, s = .array elements ∧ elements.mapM Spelling.value? = some js := by
  cases s with
  | array elements =>
    obtain ⟨js', heq, hjs⟩ := value?_array h
    obtain rfl := Json.array.inj heq
    exact ⟨elements, rfl, hjs⟩
  | object members =>
    obtain ⟨ms, heq, -⟩ := value?_object h
    cases heq
  | number t =>
    rcases Numeral.value?_cases h with ⟨n, heq, -⟩ | ⟨x, heq, -⟩
    · cases heq
    · cases heq
  | _ => cases h

/-- Only an object writes an object. -/
theorem Spelling.exists_of_value?_object {s : Spelling} {ms : List (String × Json)}
    (h : s.value? = some (.object ms)) :
    ∃ members, s = .object members ∧
      members.mapM (fun m => m.2.value?.map fun j => (m.1, j)) = some ms := by
  cases s with
  | object members =>
    obtain ⟨ms', heq, hms⟩ := value?_object h
    obtain rfl := Json.object.inj heq
    exact ⟨members, rfl, hms⟩
  | array elements =>
    obtain ⟨js, heq, -⟩ := value?_array h
    cases heq
  | number t =>
    rcases Numeral.value?_cases h with ⟨n, heq, -⟩ | ⟨x, heq, -⟩
    · cases heq
    · cases heq
  | _ => cases h

/-- What an array or object holds is written where it is written. -/
theorem inherited_writtenIn (s : Spelling) : Inherited (WrittenIn s) := by
  constructor
  · rintro js ⟨part, hpart, hvalue⟩ j hj
    obtain ⟨elements, rfl, hjs⟩ := Spelling.exists_of_value?_array hvalue
    obtain ⟨element, helement, hj⟩ := mem_of_mapM_eq_some hjs j hj
    exact ⟨element, Spelling.Occurs.trans (.element helement .here) hpart, hj⟩
  · rintro ms ⟨part, hpart, hvalue⟩ m hm
    obtain ⟨members, rfl, hms⟩ := Spelling.exists_of_value?_object hvalue
    obtain ⟨member, hmember, heq⟩ := mem_of_mapM_eq_some hms m hm
    obtain ⟨j, hj, rfl⟩ := Option.map_eq_some_iff.mp heq
    exact ⟨member.2, Spelling.Occurs.trans (.member hmember .here) hpart, hj⟩

/-! ### Conversions -/

/-- How a conversion of what is written treats the whole numbers in it. -/
structure Spelling.TreatsIntegers (s : Spelling) (result : Except BuildError Value) : Prop where
  /-- Nothing but an unsupported value is reported. -/
  unsupported {e : BuildError} : result = .error e →
    ∃ path found, e = .unsupportedValue path found
  /-- Where the number only fits without sign, the conversion fails. -/
  refused {p : List Step} {t : Numeral} {n : ℤ} : s.at? p = some (.number t) →
    t.integer? = some n → 2 ^ 63 ≤ n → n < 2 ^ 64 →
    ∃ path found, result = .error (.unsupportedValue path found)
  /-- A number that is not narrowed is itself in the value. -/
  exact {v : Value} {p : List Step} {t : Numeral} {n : ℤ} : result = .ok v →
    s.at? p = some (.number t) → t.integer? = some n → ¬t.IsNarrowed n →
    ∃ m : Int64, m.toInt = n ∧ v.at? p = some (.int m)
  /-- A number that is narrowed is a double in the value. -/
  narrowed {v : Value} {p : List Step} {t : Numeral} {n : ℤ} : result = .ok v →
    s.at? p = some (.number t) → t.integer? = some n → t.IsNarrowed n →
    ∃ x, t.toFloat? = some (.float x) ∧ v.at? p = some (.float x)

end Json

namespace Value

theorem exists_int_of_ofJsonAt {path : String} {n : ℤ} {v : Value}
    (h : ofJsonAt path (.integer n) = .ok v) : ∃ m : Int64, m.toInt = n ∧ v = .int m := by
  rw [ofJsonAt] at h
  split at h
  · rename_i hrange
    obtain rfl := Except.ok.inj h
    unfold isIntRange at hrange
    rw [Bool.and_eq_true, decide_eq_true_iff, decide_eq_true_iff] at hrange
    exact ⟨Int64.ofInt n, Int64.toInt_ofInt_of_le hrange.1 hrange.2, rfl⟩
  · cases h

variable {s : Json.Spelling} {j : Json} {path : String}

/-- What a number of the text has become, through the JSON value, in the argument value. -/
theorem at?_of_number (hj : s.value? = some j) {p : List Step} {t : Json.Numeral} {v : Value}
    (hv : ofJsonAt path j.merged = .ok v) (hs : s.at? p = some (.number t)) :
    ∃ j' v', t.value? = some j' ∧ v.at? p = some v' ∧
      ofJsonAt (pathAt path p) j'.merged = .ok v' := by
  obtain ⟨j', hj', hat⟩ := Json.Spelling.at?_merged hj hs
  obtain ⟨v', hv', hmade⟩ := at?_ofJsonAt hv hat
  exact ⟨j', v', hj', hv', hmade⟩

theorem at?_of_not_isNarrowed (hj : s.value? = some j) {p : List Step} {t : Json.Numeral} {n : ℤ}
    {v : Value} (hv : ofJsonAt path j.merged = .ok v) (hs : s.at? p = some (.number t))
    (hn : t.integer? = some n) (h : ¬t.IsNarrowed n) :
    ∃ m : Int64, m.toInt = n ∧ v.at? p = some (.int m) := by
  obtain ⟨j', v', hj', hat, hmade⟩ := at?_of_number hj hv hs
  rw [Json.Numeral.value?_of_not_isNarrowed hn h] at hj'
  obtain rfl := Option.some.inj hj'
  obtain ⟨m, hm, rfl⟩ := exists_int_of_ofJsonAt hmade
  exact ⟨m, hm, hat⟩

theorem at?_of_isNarrowed (hj : s.value? = some j) {p : List Step} {t : Json.Numeral} {n : ℤ}
    {v : Value} (hv : ofJsonAt path j.merged = .ok v) (hs : s.at? p = some (.number t))
    (hn : t.integer? = some n) (h : t.IsNarrowed n) :
    ∃ x, t.toFloat? = some (.float x) ∧ v.at? p = some (.float x) := by
  obtain ⟨j', v', hj', hat, hmade⟩ := at?_of_number hj hv hs
  rw [Json.Numeral.value?_of_isNarrowed hn h] at hj'
  obtain ⟨x, rfl, -⟩ := Json.Numeral.exists_of_toFloat? hj'
  obtain rfl : Value.float x = v' := Except.ok.inj hmade
  exact ⟨x, hj', hat⟩

end Value

/-- Both conversions treat whole numbers alike, whatever the path they report. -/
theorem Json.Spelling.treatsIntegers_ofJsonAt {s : Spelling} {j : Json} (hj : s.value? = some j)
    (path : String) : s.TreatsIntegers (Value.ofJsonAt path j.merged) := by
  have hkept : j.merged.IsKept := (s.isKept_of_value? hj).merged
  refine ⟨Value.unsupported_of_ofJsonAt hkept, ?_, Value.at?_of_not_isNarrowed hj,
    Value.at?_of_isNarrowed hj⟩
  intro p t n hs hn hlower hupper
  cases hresult : Value.ofJsonAt path j.merged with
  | error e =>
    obtain ⟨p', found, rfl⟩ := Value.unsupported_of_ofJsonAt hkept hresult
    exact ⟨p', found, rfl⟩
  | ok v =>
    -- The number is not narrowed, so the value would hold it as a signed integer; it is too large.
    have hnarrowed : ¬t.IsNarrowed n := by
      rintro (⟨-, hzero⟩ | h | h)
      · have hn0 : n = 0 := Option.some.inj (hn.symm.trans hzero)
        omega
      · omega
      · omega
    obtain ⟨m, hm, -⟩ := Value.at?_of_not_isNarrowed hj hresult hs hn hnarrowed
    have hlt : m.toInt < 2 ^ 63 := m.toInt_lt
    omega

/-- **What becomes of the whole numbers of a text.**  A conversion of the text's value, and so of
each argument in a request file, fails only for an unsupported value, and does fail where a number
is from `2 ^ 63` to `2 ^ 64 - 1`.  Otherwise a number that is not narrowed is in the value exactly,
and one that is narrowed is there as the double that was read. -/
theorem integers_of_text (text : String) :
    (∀ depth s j, Json.spellingOf? depth text.toList = some s → s.value? = some j →
        s.TreatsIntegers (Value.ofJson j.merged) ∧
          ∀ name, s.TreatsIntegers (Value.ofJsonArgument name j.merged)) ∧
      ∀ file s, RequestFile.parse? text = some file →
        Json.spellingOf? RequestFile.depthLimit text.toList = some s →
        ∀ entry ∈ file.argumentEntries, ∃ (part : Json.Spelling) (j : Json), part.Occurs s ∧
          part.value? = some j ∧ entry.2 = j.merged ∧
          part.TreatsIntegers (Value.ofJsonArgument entry.1 entry.2) := by
  constructor
  · intro depth s j _ hj
    exact ⟨Json.Spelling.treatsIntegers_ofJsonAt hj "",
      fun name => Json.Spelling.treatsIntegers_ofJsonAt hj name⟩
  · intro file s hfile hs entry hentry
    have htext : ∀ j, Json.parseWithin RequestFile.depthLimit text = some j →
        Json.WrittenIn s j := by
      intro j hj
      rw [Json.parseWithin, hs] at hj
      exact ⟨s, .here, hj⟩
    obtain ⟨j, ⟨part, hpart, hj⟩, heq⟩ :=
      RequestFile.mergedFrom_of_parse? (Json.inherited_writtenIn s) hfile htext entry hentry
    refine ⟨part, j, hpart, hj, heq, ?_⟩
    rw [heq]
    exact Json.Spelling.treatsIntegers_ofJsonAt hj entry.1

/-- The least whole number above the 64-bit ones is narrowed. -/
theorem integers_of_text_beyond :
    ∃ s j x, Json.spellingOf? 0 "18446744073709551616".toList = some s ∧ s.value? = some j ∧
      s.at? [] = some (.number ⟨false, "18446744073709551616".toList, none, none⟩) ∧
      Value.ofJson j.merged = .ok (.float x) ∧ s.TreatsIntegers (Value.ofJson j.merged) := by
  let t : Json.Numeral := ⟨false, "18446744073709551616".toList, none, none⟩
  let x : Double := .finite false 4895412794951729152 (by decide)
  have hs : Json.spellingOf? 0 "18446744073709551616".toList = some (.number t) := rfl
  have hn : t.integer? = some 18446744073709551616 := rfl
  have hx : t.toFloat? = some (.float x) := by
    have hdigits : Json.digitsValue (t.whole ++ []) = 18446744073709551616 := by rfl
    have hdouble : Double.ofDecimal false 18446744073709551616 0 = x := by decide +kernel
    unfold Json.Numeral.toFloat?
    dsimp only [t, Option.getD_none] at hdigits ⊢
    rw [hdigits]
    simp [hdouble, x, Double.isFinite]
  have hj : (Json.Spelling.number t).value? = some (.float x) := by
    rw [Json.Spelling.value?, Json.Numeral.value?_of_isNarrowed hn (.inr (.inr (by decide))), hx]
  exact ⟨.number t, .float x, x, hs, hj, rfl, rfl, ((integers_of_text _).1 0 _ _ hs hj).1⟩

end QueryComposer
