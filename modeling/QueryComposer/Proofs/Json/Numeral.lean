import Mathlib.Algebra.Field.Rat
import Mathlib.Algebra.Order.Ring.Nat
import QueryComposer.Json.Reader

/-!
# Reading numbers back

What the reader of numbers does on a text that is put together from parts: digits before the point
(`readWhole_append`), a fraction, an exponent, and a rest that does not go on with the number
(`EndsNumber`).  `readNumeral_eq` joins the parts.  `Numeral.toRat` is the rational number that a
written number stands for.
-/

namespace QueryComposer.Json

/-! ### Values of digits -/

theorem digitsValue_eq (cs : List Char) : digitsValue cs = Nat.ofDigitChars 10 cs 0 := rfl

theorem digitsValue_toDigits (n : ℕ) : digitsValue (Nat.toDigits 10 n) = n :=
  Nat.ofDigitChars_ten_toDigits

theorem digitsValue_append (cs ds : List Char) :
    digitsValue (cs ++ ds) = digitsValue cs * 10 ^ ds.length + digitsValue ds := by
  rw [digitsValue_eq, Nat.ofDigitChars_append, Nat.ofDigitChars_eq_ofDigitChars_zero, Nat.mul_comm]
  rfl

theorem digitsValue_replicate_zero (n : ℕ) : digitsValue (List.replicate n '0') = 0 := by
  rw [digitsValue_eq, Nat.ofDigitChars_replicate_zero, Nat.mul_zero]

theorem digitsValue_append_zeros (cs : List Char) (n : ℕ) :
    digitsValue (cs ++ List.replicate n '0') = digitsValue cs * 10 ^ n := by
  rw [digitsValue_append, digitsValue_replicate_zero, List.length_replicate, Nat.add_zero]

theorem digitsValue_zeros_append (n : ℕ) (cs : List Char) :
    digitsValue (List.replicate n '0' ++ cs) = digitsValue cs := by
  rw [digitsValue_append, digitsValue_replicate_zero, Nat.zero_mul, Nat.zero_add]

theorem toDigits_ne_zero_cons {n : ℕ} (hn : 0 < n) (rest : List Char) :
    Nat.toDigits 10 n ≠ '0' :: rest := by
  induction n using Nat.strong_induction_on generalizing rest with
  | _ n ih =>
    rw [Nat.toDigits_eq_if (by decide)]
    split
    · rename_i hlt
      intro h
      have hvalue : digitsValue (Nat.toDigits 10 n) = digitsValue ('0' :: rest) := by
        rw [Nat.toDigits_of_lt_base hlt, h]
      rw [digitsValue_toDigits, (List.cons.inj h).2.symm] at hvalue
      exact hn.ne' hvalue
    · rename_i hge
      obtain ⟨c, cs, hcs⟩ :=
        List.exists_cons_of_ne_nil (Nat.toDigits_ne_nil (n := n / 10) (b := 10))
      rw [hcs, List.cons_append]
      intro h
      rw [(List.cons.inj h).1] at hcs
      exact ih (n / 10) (by omega) (by omega) cs hcs

/-! ### Reading the parts -/

/-- All the characters are decimal digits. -/
def AllDigits (cs : List Char) : Prop := ∀ c ∈ cs, c.isDigit = true

/-- Digits as they stand before the point: a zero stands alone. -/
structure IsWhole (cs : List Char) : Prop where
  ne_nil : cs ≠ []
  allDigits : AllDigits cs
  zero_alone : ∀ rest, cs = '0' :: rest → rest = []

/-- The rest does not begin with a digit. -/
def NoDigit (rest : List Char) : Prop := ∀ c ∈ rest.head?, c.isDigit = false

/-- The rest does not begin with a character that could go on with a number. -/
def EndsNumber (rest : List Char) : Prop :=
  ∀ c ∈ rest.head?, c.isDigit = false ∧ c ≠ '.' ∧ c ≠ 'e' ∧ c ≠ 'E'

theorem endsNumber_nil : EndsNumber [] := fun _ h => absurd h (by simp)

theorem EndsNumber.noDigit {rest : List Char} (h : EndsNumber rest) : NoDigit rest :=
  fun c hc => (h c hc).1

theorem allDigits_toDigits (n : ℕ) : AllDigits (Nat.toDigits 10 n) :=
  fun _ hc => Nat.isDigit_of_mem_toDigits (by decide) (by decide) hc

theorem isWhole_toDigits (n : ℕ) : IsWhole (Nat.toDigits 10 n) := by
  refine ⟨Nat.toDigits_ne_nil, allDigits_toDigits n, fun rest h => ?_⟩
  rcases Nat.eq_zero_or_pos n with rfl | hn
  · rw [Nat.toDigits_zero] at h
    exact (List.cons.inj h).2.symm
  · exact absurd h (toDigits_ne_zero_cons hn rest)

theorem readDigits_append {cs rest : List Char} (hcs : AllDigits cs) (hrest : NoDigit rest) :
    readDigits (cs ++ rest) = (cs, rest) := by
  unfold readDigits
  have hhead : rest.takeWhile Char.isDigit = [] ∧ rest.dropWhile Char.isDigit = rest := by
    cases rest with
    | nil => exact ⟨rfl, rfl⟩
    | cons c rest =>
      have hc : c.isDigit = false := hrest c rfl
      simp [hc]
  rw [List.takeWhile_append_of_pos hcs, List.dropWhile_append_of_pos hcs, hhead.1, hhead.2,
    List.append_nil]

theorem readWhole_append {cs rest : List Char} (hcs : IsWhole cs) (hrest : NoDigit rest) :
    readWhole (cs ++ rest) = some (cs, rest) := by
  unfold readWhole
  rw [readDigits_append hcs.allDigits hrest]
  split
  · rename_i h
    exact absurd (Prod.mk.inj h).1 hcs.ne_nil
  · rename_i h
    exact absurd (hcs.zero_alone _ (Prod.mk.inj h).1) (List.cons_ne_nil _ _)
  · rename_i h
    rw [(Prod.mk.inj h).1, (Prod.mk.inj h).2]

theorem readFraction_append {cs rest : List Char} (hne : cs ≠ []) (hcs : AllDigits cs)
    (hrest : NoDigit rest) : readFraction ('.' :: (cs ++ rest)) = some (some cs, rest) := by
  rw [readFraction, readDigits_append hcs hrest]
  cases cs with
  | nil => exact absurd rfl hne
  | cons c cs => rfl

theorem readFraction_none {rest : List Char} (hrest : ∀ c ∈ rest.head?, c ≠ '.') :
    readFraction rest = some (none, rest) := by
  unfold readFraction
  split
  · exact absurd rfl (hrest '.' rfl)
  · rfl

theorem readExponent_none {rest : List Char} (hrest : EndsNumber rest) :
    readExponent rest = some (none, rest) := by
  cases rest with
  | nil => rfl
  | cons c rest =>
    obtain ⟨-, -, he, hE⟩ := hrest c rfl
    rw [readExponent, if_neg (by simp [he, hE])]

/-- The characters of a sign that is written only when it is a minus. -/
def minusIf (negative : Bool) : List Char := if negative then ['-'] else []

theorem readSign_digits {cs : List Char} (rest : List Char) (hne : cs ≠ []) (hcs : AllDigits cs) :
    readSign (cs ++ rest) = (false, cs ++ rest) := by
  obtain ⟨c, cs, rfl⟩ := List.exists_cons_of_ne_nil hne
  have hc : c.isDigit = true := hcs c (List.mem_cons_self ..)
  rw [List.cons_append]
  unfold readSign
  split
  · rename_i h
    rw [(List.cons.inj h).1] at hc
    exact absurd hc (by decide)
  · rename_i h
    rw [(List.cons.inj h).1] at hc
    exact absurd hc (by decide)
  · rfl

theorem readExponent_append {sign cs rest : List Char} {negative : Bool}
    (hsign : readSign (sign ++ (cs ++ rest)) = (negative, cs ++ rest)) (hne : cs ≠ [])
    (hcs : AllDigits cs) (hrest : NoDigit rest) :
    readExponent ('e' :: (sign ++ (cs ++ rest))) =
      some (some (if negative then -(digitsValue cs : ℤ) else digitsValue cs), rest) := by
  rw [readExponent, if_pos (Or.inl rfl), hsign]
  dsimp only
  rw [readDigits_append hcs hrest]
  cases cs with
  | nil => exact absurd rfl hne
  | cons c cs => rfl

/-! ### Whole numbers as they are written -/

/-- A number is read part by part. -/
theorem readNumeral_eq {cs afterWhole afterFraction rest whole : List Char} (negative : Bool)
    {fraction : Option (List Char)} {exponent : Option ℤ}
    (hwhole : readWhole cs = some (whole, afterWhole))
    (hfraction : readFraction afterWhole = some (fraction, afterFraction))
    (hexponent : readExponent afterFraction = some (exponent, rest)) :
    readNumeral (minusIf negative ++ cs) = some (⟨negative, whole, fraction, exponent⟩, rest) := by
  cases negative with
  | true => simp [readNumeral, minusIf, hwhole, hfraction, hexponent]
  | false =>
    rw [minusIf, if_neg (by decide), List.nil_append, readNumeral]
    · simp [hwhole, hfraction, hexponent]
    · rintro rest rfl
      simp [readWhole, readDigits] at hwhole

/-- What is read as a number begins with a minus sign or a digit. -/
theorem head_of_readNumeral {cs rest : List Char} {t : Numeral}
    (h : readNumeral cs = some (t, rest)) :
    ∃ c tail, cs = c :: tail ∧ (c = '-' ∨ c.isDigit = true) := by
  cases cs with
  | nil => simp [readNumeral, readWhole, readDigits] at h
  | cons c tail =>
    refine ⟨c, tail, rfl, ?_⟩
    by_cases hminus : c = '-'
    · exact .inl hminus
    · right
      by_contra hdigit
      have hnone : readWhole (c :: tail) = none := by simp [readWhole, readDigits, hdigit]
      have hsign : readNumeral (c :: tail) = none := by
        unfold readNumeral
        split
        rename_i hmatch
        split at hmatch
        · rename_i heq
          exact absurd (List.cons.inj heq).1 hminus
        · obtain ⟨-, rfl⟩ := Prod.mk.inj hmatch
          rw [hnone]
          rfl
      rw [hsign] at h
      cases h

/-- The rational number that a written number stands for. -/
def Numeral.toRat (t : Numeral) : ℚ :=
  digitsValue (t.whole ++ t.fraction.getD []) *
    10 ^ (t.exponent.getD 0 - ((t.fraction.getD []).length : ℤ))

/-- The text of a whole number is read as its digits alone, with neither fraction nor exponent. -/
theorem readNumeral_int (n : ℤ) {rest : List Char} (hrest : EndsNumber rest) :
    readNumeral ((toString n).toList ++ rest) =
      some (⟨decide (n < 0), Nat.toDigits 10 n.natAbs, none, none⟩, rest) := by
  have htext : (toString n).toList = minusIf (decide (n < 0)) ++ Nat.toDigits 10 n.natAbs := by
    cases n with
    | ofNat m =>
      show (Nat.repr m).toList = _
      rw [Nat.toList_repr]
      simp [minusIf]
    | negSucc m =>
      show ("-" ++ Nat.repr (m + 1)).toList = _
      rw [String.toList_append, Nat.toList_repr]
      simp [minusIf]
  rw [htext, List.append_assoc]
  exact readNumeral_eq _ (readWhole_append (isWhole_toDigits _) hrest.noDigit)
    (readFraction_none fun c hc => (hrest c hc).2.1) (readExponent_none hrest)

end QueryComposer.Json
