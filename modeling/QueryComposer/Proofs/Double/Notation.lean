import QueryComposer.Double.Notation
import QueryComposer.Proofs.Double.Magnitude
import QueryComposer.Proofs.Json.Numeral

/-!
# Numbers read back what was written

Both forms in which a decimal is written are read as a number with a fraction or an exponent, never
as a whole number, and the number read is the decimal (`readNumeral_plain`,
`readNumeral_scientific`).  With the shortest digits of a magnitude this makes the text of a finite
number readable in every style (`Style.readNumeral_text`) and different from the text of every other
finite number (`Style.text_append_inj`).
-/

namespace QueryComposer.Double

open QueryComposer.Json

/-! ### The two forms -/

/-- Digits that do not write zero do not write zero from their first place on either. -/
theorem isWhole_append {cs ds : List Char} (hcs : IsWhole cs) (hds : AllDigits ds)
    (hzero : cs = ['0'] → ds = []) : IsWhole (cs ++ ds) := by
  refine ⟨List.append_ne_nil_of_left_ne_nil hcs.ne_nil ds, ?_, ?_⟩
  · intro c hc
    rcases List.mem_append.mp hc with hc | hc
    · exact hcs.allDigits c hc
    · exact hds c hc
  · intro rest h
    obtain ⟨c, cs, rfl⟩ := List.exists_cons_of_ne_nil hcs.ne_nil
    rw [List.cons_append] at h
    obtain ⟨rfl, rfl⟩ := List.cons.inj h
    have hcs_nil := hcs.zero_alone cs rfl
    subst hcs_nil
    rw [hzero rfl]
    rfl

theorem isWhole_take {cs : List Char} (hcs : IsWhole cs) (hzero : cs ≠ ['0']) {n : ℕ} (hn : 0 < n) :
    IsWhole (cs.take n) := by
  obtain ⟨c, cs, rfl⟩ := List.exists_cons_of_ne_nil hcs.ne_nil
  obtain ⟨n, rfl⟩ : ∃ m, n = m + 1 := ⟨n - 1, by omega⟩
  rw [List.take_succ_cons]
  refine ⟨List.cons_ne_nil _ _, ?_, ?_⟩
  · intro d hd
    refine hcs.allDigits d ?_
    rcases List.mem_cons.mp hd with rfl | hd
    · exact List.mem_cons_self ..
    · exact List.mem_cons_of_mem _ (List.mem_of_mem_take hd)
  · intro rest h
    obtain ⟨rfl, -⟩ := List.cons.inj h
    exact absurd (by rw [hcs.zero_alone cs rfl]) hzero

theorem allDigits_zeros (n : ℕ) : AllDigits (List.replicate n '0') := by
  intro c hc
  rw [List.eq_of_mem_replicate hc]
  rfl

theorem noDigit_point (rest : List Char) : NoDigit ('.' :: rest) := by
  rintro c ⟨⟩
  rfl

theorem plain_natCast (digits : List Char) (n : ℕ) :
    plain digits n = digits ++ List.replicate n '0' ++ ['.', '0'] := by
  rw [plain, if_pos (Int.natCast_nonneg n), Int.toNat_natCast]

theorem plain_point_inside {digits : List Char} {e : ℤ} {n : ℕ} (he : e < 0)
    (hn : (digits.length : ℤ) + e = n) (hpos : 0 < n) :
    plain digits e = digits.take n ++ '.' :: digits.drop n := by
  rw [plain, if_neg (by omega), if_pos (by omega), hn, Int.toNat_natCast]

theorem plain_point_before {digits : List Char} {e : ℤ} {n : ℕ} (he : e < 0)
    (hn : -((digits.length : ℤ) + e) = n) :
    plain digits e = ['0'] ++ '.' :: (List.replicate n '0' ++ digits) := by
  rw [plain, if_neg (by omega), if_neg (by omega), hn, Int.toNat_natCast]
  rfl

/-- What is read from a text is a number with a fraction or an exponent, of this sign and value. -/
def ReadsAs (cs rest : List Char) (negative : Bool) (x : ℚ) : Prop :=
  ∃ t, readNumeral cs = some (t, rest) ∧ t.negative = negative ∧
    (t.fraction ≠ none ∨ t.exponent ≠ none) ∧ t.toRat = x

/-- The plain form is read as the decimal it writes. -/
theorem readNumeral_plain {digits rest : List Char} (hdigits : IsWhole digits) {e : ℤ}
    (hzero : digits = ['0'] → e = 0) (hrest : EndsNumber rest) (negative : Bool) :
    ReadsAs (minusIf negative ++ (plain digits e ++ rest)) rest negative
      (digitsValue digits * 10 ^ e) := by
  have hexponent := readExponent_none hrest
  -- Zeros fill up a decimal without fraction, and a single zero stands behind the point.
  by_cases he : 0 ≤ e
  · obtain ⟨n, rfl⟩ := Int.eq_ofNat_of_zero_le he
    have hwhole : IsWhole (digits ++ List.replicate n '0') := by
      refine isWhole_append hdigits (allDigits_zeros n) fun h => ?_
      rw [show n = 0 by have := hzero h; omega]
      rfl
    rw [plain_natCast, List.append_assoc]
    refine ⟨_, readNumeral_eq negative (readWhole_append hwhole (noDigit_point _))
      (readFraction_append (List.cons_ne_nil '0' []) (allDigits_zeros 1) hrest.noDigit)
      hexponent, rfl, .inl (Option.some_ne_none _), ?_⟩
    show (digitsValue (digits ++ List.replicate n '0' ++ List.replicate 1 '0') : ℚ) *
      10 ^ (-1 : ℤ) = _
    rw [digitsValue_append_zeros, digitsValue_append_zeros, zpow_natCast, zpow_neg_one]
    push_cast
    field_simp
  have hne : digits ≠ ['0'] := fun h => he (hzero h).ge
  -- The point stands among the digits, or before all of them behind zeros.
  by_cases hlength : 0 < (digits.length : ℤ) + e
  · obtain ⟨n, hn⟩ := Int.eq_ofNat_of_zero_le hlength.le
    have hdrop : digits.drop n ≠ [] := by
      rw [ne_eq, List.drop_eq_nil_iff]
      omega
    have hdropDigits : AllDigits (digits.drop n) :=
      fun c hc => hdigits.allDigits c (List.mem_of_mem_drop hc)
    rw [plain_point_inside (by omega) hn (by omega), List.append_assoc]
    refine ⟨_, readNumeral_eq negative
      (readWhole_append (isWhole_take hdigits hne (by omega)) (noDigit_point _))
      (readFraction_append hdrop hdropDigits hrest.noDigit) hexponent, rfl,
      .inl (Option.some_ne_none _), ?_⟩
    show (digitsValue (digits.take n ++ digits.drop n) : ℚ) *
      10 ^ (0 - (digits.drop n).length : ℤ) = _
    rw [List.take_append_drop, List.length_drop]
    congr 2
    omega
  · obtain ⟨n, hn⟩ := Int.eq_ofNat_of_zero_le (show 0 ≤ -((digits.length : ℤ) + e) by omega)
    have hfraction : AllDigits (List.replicate n '0' ++ digits) := by
      intro c hc
      rcases List.mem_append.mp hc with hc | hc
      · exact allDigits_zeros n c hc
      · exact hdigits.allDigits c hc
    rw [plain_point_before (by omega) hn, List.append_assoc]
    refine ⟨_, readNumeral_eq negative
      (readWhole_append (isWhole_toDigits 0) (noDigit_point _))
      (readFraction_append (List.append_ne_nil_of_right_ne_nil _ hdigits.ne_nil) hfraction
        hrest.noDigit) hexponent, rfl, .inl (Option.some_ne_none _), ?_⟩
    show (digitsValue (List.replicate 1 '0' ++ (List.replicate n '0' ++ digits)) : ℚ) *
      10 ^ (0 - (List.replicate n '0' ++ digits).length : ℤ) = _
    rw [digitsValue_zeros_append, digitsValue_zeros_append, List.length_append,
      List.length_replicate]
    congr 2
    omega

/-- The sign of an exponent. -/
def exponentSign (signsExponent : Bool) (leading : ℤ) : List Char :=
  if leading < 0 then ['-'] else if signsExponent then ['+'] else []

theorem readSign_exponentSign (signsExponent : Bool) (leading : ℤ) (rest : List Char) :
    readSign (exponentSign signsExponent leading ++ (Nat.toDigits 10 leading.natAbs ++ rest)) =
      (decide (leading < 0), Nat.toDigits 10 leading.natAbs ++ rest) := by
  unfold exponentSign
  by_cases hneg : leading < 0
  · rw [if_pos hneg, decide_eq_true hneg]
    rfl
  · rw [if_neg hneg, decide_eq_false hneg]
    cases signsExponent with
    | true => rfl
    | false => exact readSign_digits rest Nat.toDigits_ne_nil (allDigits_toDigits _)

theorem isWhole_singleton {c : Char} (hc : c.isDigit = true) : IsWhole [c] := by
  refine ⟨List.cons_ne_nil _ _, ?_, fun rest h => (List.cons.inj h).2.symm⟩
  rintro d hd
  rwa [List.mem_singleton.mp hd]

/-- The exponent form is read as the decimal it writes. -/
theorem readNumeral_scientific {digits rest : List Char} (hdigits : IsWhole digits)
    (signsExponent : Bool) (leading : ℤ) (hrest : EndsNumber rest) (negative : Bool) :
    ReadsAs (minusIf negative ++ (scientific signsExponent digits leading ++ rest)) rest negative
      (digitsValue digits * 10 ^ (leading - (digits.length - 1))) := by
  have hexponent := readExponent_append (readSign_exponentSign signsExponent leading rest)
    Nat.toDigits_ne_nil (allDigits_toDigits _) hrest.noDigit
  have hvalue : (if decide (leading < 0) then -(digitsValue (Nat.toDigits 10 leading.natAbs) : ℤ)
      else digitsValue (Nat.toDigits 10 leading.natAbs)) = leading := by
    rw [digitsValue_toDigits]
    split_ifs with hneg
    · have := of_decide_eq_true hneg
      omega
    · have := of_decide_eq_false (Bool.eq_false_iff.mpr hneg)
      omega
  rw [hvalue] at hexponent
  have hnoDigit : ∀ cs, NoDigit ('e' :: cs) := by
    rintro cs c ⟨⟩
    rfl
  -- The first digit stands before the point, and there is no point if it is the only one.
  obtain ⟨c, cs, rfl⟩ := List.exists_cons_of_ne_nil hdigits.ne_nil
  have hc : IsWhole [c] := isWhole_singleton (hdigits.allDigits c (List.mem_cons_self ..))
  cases cs with
  | nil =>
    have htext : scientific signsExponent [c] leading ++ rest =
        [c] ++ 'e' :: (exponentSign signsExponent leading ++
          (Nat.toDigits 10 leading.natAbs ++ rest)) := by
      simp [scientific, exponentSign]
    rw [htext]
    refine ⟨_, readNumeral_eq negative (readWhole_append hc (hnoDigit _))
      (readFraction_none fun d hd => ?_) hexponent, rfl, .inr (Option.some_ne_none _), ?_⟩
    · cases hd
      decide
    · show (digitsValue [c] : ℚ) * 10 ^ (leading - (0 : ℕ)) = _
      rfl
  | cons d cs =>
    have htext : scientific signsExponent (c :: d :: cs) leading ++ rest =
        [c] ++ '.' :: ((d :: cs) ++ 'e' :: (exponentSign signsExponent leading ++
          (Nat.toDigits 10 leading.natAbs ++ rest))) := by
      simp [scientific, exponentSign]
    rw [htext]
    refine ⟨_, readNumeral_eq negative (readWhole_append hc (noDigit_point _))
      (readFraction_append (List.cons_ne_nil d cs)
        (fun x hx => hdigits.allDigits x (List.mem_cons_of_mem _ hx)) (hnoDigit _))
      hexponent, rfl, .inr (Option.some_ne_none _), ?_⟩
    show (digitsValue (c :: d :: cs) : ℚ) * 10 ^ (leading - ((d :: cs).length : ℤ)) =
      digitsValue (c :: d :: cs) * 10 ^ (leading - (((d :: cs).length + 1 : ℕ) - 1 : ℤ))
    congr 2
    push_cast
    ring

/-! ### The text of a number -/

namespace Style

variable (style : Style)

/-- The text of a magnitude is read as its shortest decimal. -/
theorem readNumeral_magnitude (r : ℕ) {rest : List Char} (hrest : EndsNumber rest)
    (negative : Bool) :
    ReadsAs (minusIf negative ++ (style.magnitude r ++ rest)) rest negative
      (shortest style.tie r).toRat := by
  have hzero : Nat.toDigits 10 (shortest style.tie r).digits = ['0'] →
      (shortest style.tie r).exponent = 0 := by
    intro h
    rcases Nat.eq_zero_or_pos r with rfl | hr
    · rfl
    · have hpos := toRat_shortest_pos style.tie hr
      rw [Decimal.toRat, ← digitsValue_toDigits (shortest style.tie r).digits, h] at hpos
      exact absurd hpos (by simp [digitsValue])
  simp only [magnitude]
  generalize shortest style.tie r = d at hzero ⊢
  have hdigits := isWhole_toDigits d.digits
  rw [Decimal.toRat]
  split_ifs
  · have hplain := readNumeral_plain hdigits hzero hrest negative
    rwa [digitsValue_toDigits] at hplain
  · have hscientific := readNumeral_scientific hdigits style.signsExponent
      (d.exponent + (Nat.toDigits 10 d.digits).length - 1) hrest negative
    rw [digitsValue_toDigits] at hscientific
    convert hscientific using 3
    ring

/-- The text of a finite number is read as the number's sign and shortest decimal. -/
theorem readNumeral_text (negative : Bool) (r : ℕ) (hr : r < rankCount) {rest : List Char}
    (hrest : EndsNumber rest) :
    ReadsAs ((style.text (.finite negative r hr)).toList ++ rest) rest negative
      (shortest style.tie r).toRat := by
  have htext : (style.text (.finite negative r hr)).toList =
      minusIf negative ++ style.magnitude r := by
    rw [text, String.toList_ofList]
    rfl
  rw [htext, List.append_assoc]
  exact style.readNumeral_magnitude r hrest negative

/-- **The text of a finite number identifies it**, and it ends where no number can go on. -/
theorem text_append_inj {x y : Double} (hx : x.isFinite = true) (hy : y.isFinite = true)
    {rest rest' : List Char} (hrest : EndsNumber rest) (hrest' : EndsNumber rest')
    (h : (style.text x).toList ++ rest = (style.text y).toList ++ rest') :
    x = y ∧ rest = rest' := by
  cases x with
  | finite s a ha =>
    cases y with
    | finite t b hb =>
      obtain ⟨u, hu, hus, -, hua⟩ := style.readNumeral_text s a ha hrest
      obtain ⟨v, hv, hvt, -, hvb⟩ := style.readNumeral_text t b hb hrest'
      rw [h, hv] at hu
      obtain ⟨rfl, rfl⟩ := Prod.mk.inj (Option.some.inj hu)
      have hab : a = b := shortest_inj (hua.symm.trans hvb)
      subst hab
      rw [← hus, ← hvt]
      exact ⟨rfl, rfl⟩
    | infinite t => cases hy
    | nan => cases hy
  | infinite s => cases hx
  | nan => cases hx

end Style

end QueryComposer.Double
