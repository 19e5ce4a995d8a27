import QueryComposer.Double.Nearest
import QueryComposer.Proofs.Double.Notation
import QueryComposer.Proofs.Json.Reading

/-!
# Decimals are read as the nearest number

Rounding a decimal goes through whole numbers only: an exponent of two that fits the quotient
(`fittingExponent_spec`) and one rounded division (`nearestWhole_roundedQuotient`).  What comes out
is the rank that the quotient rounds to (`roundsTo_nearestRank`), so a decimal inside the interval
of a rank is read as the number of that rank (`ofDecimal_of_roundsTo`).

Main statement: the text of a finite number is read back as that number, sign included
(`Style.value?_text`).
-/

namespace QueryComposer.Double

open QueryComposer.Json

/-! ### Rounded division -/

/-- The whole number is nearest to the rational, and even when the rational lies halfway between
two. -/
def NearestWhole (y : ℚ) (q : ℕ) : Prop :=
  (q : ℚ) - 1 / 2 ≤ y ∧ y ≤ q + 1 / 2 ∧ (q % 2 = 1 → (q : ℚ) - 1 / 2 < y ∧ y < q + 1 / 2)

theorem nearestWhole_roundedQuotient (n : ℕ) {d : ℕ} (hd : 0 < d) :
    NearestWhole (n / d) (roundedQuotient n d) := by
  have hdpos : (0 : ℚ) < d := by exact_mod_cast hd
  have hquotient : (n : ℚ) / d = (n / d : ℕ) + (n % d : ℕ) / d := by
    rw [div_eq_iff hdpos.ne', add_mul, div_mul_cancel₀ _ hdpos.ne']
    exact_mod_cast (Nat.div_add_mod' n d).symm
  have hnonneg : (0 : ℚ) ≤ (n % d : ℕ) / d := by positivity
  have hlt_one : ((n % d : ℕ) : ℚ) / d < 1 := by
    rw [div_lt_one hdpos]
    exact_mod_cast Nat.mod_lt n hd
  have hlt_half : ((n % d : ℕ) : ℚ) / d < 1 / 2 ↔ 2 * (n % d) < d := by
    rw [div_lt_div_iff₀ hdpos (by norm_num), one_mul, mul_comm]
    exact_mod_cast Iff.rfl
  have hhalf_lt : 1 / 2 < ((n % d : ℕ) : ℚ) / d ↔ d < 2 * (n % d) := by
    rw [div_lt_div_iff₀ (by norm_num) hdpos, one_mul, mul_comm]
    exact_mod_cast Iff.rfl
  rw [hquotient, NearestWhole, roundedQuotient]
  generalize ((n % d : ℕ) : ℚ) / d = part at *
  split_ifs with hdown hup
  · have := hlt_half.mpr hdown
    exact ⟨by linarith, by linarith, fun _ => ⟨by linarith, by linarith⟩⟩
  · have := hhalf_lt.mpr hup
    push_cast
    exact ⟨by linarith, by linarith, fun _ => ⟨by linarith, by linarith⟩⟩
  · -- Halfway: the even neighbour is taken.
    have hge : 1 / 2 ≤ part := not_lt.mp (mt hlt_half.mp hdown)
    have hle : part ≤ 1 / 2 := not_lt.mp (mt hhalf_lt.mp hup)
    rcases Nat.mod_two_eq_zero_or_one (n / d) with heven | hodd
    · rw [heven, Nat.add_zero]
      exact ⟨by linarith, by linarith, fun h => by omega⟩
    · rw [hodd]
      push_cast
      exact ⟨by linarith, by linarith, fun h => by omega⟩

/-- A power may stand on either side of the fraction stroke. -/
theorem mul_pow_div {b : ℕ} (hb : 0 < b) (n d : ℕ) (e : ℤ) :
    ((n * Nat.pow b e.toNat : ℕ) : ℚ) / (d * Nat.pow b (-e).toNat : ℕ) = n / d * b ^ e := by
  have hbase : (b : ℚ) ≠ 0 := by exact_mod_cast hb.ne'
  rw [Nat.pow_eq, Nat.pow_eq]
  push_cast
  rcases le_total 0 e with h | h
  · obtain ⟨k, rfl⟩ := Int.eq_ofNat_of_zero_le h
    rw [Int.toNat_natCast, Int.toNat_of_nonpos (by omega), zpow_natCast]
    ring
  · obtain ⟨k, hk⟩ := Int.eq_ofNat_of_zero_le (a := -e) (by omega)
    obtain rfl : e = -k := by omega
    rw [neg_neg, Int.toNat_natCast, Int.toNat_of_nonpos (by omega), zpow_neg, zpow_natCast]
    field_simp

theorem nearestWhole_scaledQuotient (n : ℕ) {d : ℕ} (hd : 0 < d) (e : ℤ) :
    NearestWhole (n / d * 2 ^ e) (scaledQuotient n d e) := by
  have hquotient := mul_pow_div (b := 2) (by decide) n d e
  rw [Nat.cast_ofNat] at hquotient
  rw [← hquotient, scaledQuotient]
  exact nearestWhole_roundedQuotient _ (Nat.mul_pos hd (Nat.pow_pos (by decide)))

/-! ### The exponent of two -/

theorem two_zpow_le_of_log2 {n : ℕ} (hn : 0 < n) : (2 : ℚ) ^ (Nat.log2 n : ℤ) ≤ n := by
  rw [zpow_natCast]
  exact_mod_cast Nat.log2_self_le hn.ne'

theorem lt_two_zpow_of_log2 (n : ℕ) : (n : ℚ) < 2 ^ ((Nat.log2 n : ℤ) + 1) := by
  have h : n < 2 ^ (Nat.log2 n + 1) := Nat.lt_log2_self
  exact_mod_cast h

/-- The logarithms bound a quotient between two powers whose exponents are two apart. -/
theorem log2_quotient_bounds {n d : ℕ} (hn : 0 < n) (hd : 0 < d) :
    (2 : ℚ) ^ ((Nat.log2 n : ℤ) - Nat.log2 d - 1) ≤ n / d ∧
      (n / d : ℚ) < 2 ^ ((Nat.log2 n : ℤ) - Nat.log2 d + 1) := by
  have hdpos : (0 : ℚ) < d := by exact_mod_cast hd
  have htwo : (2 : ℚ) ≠ 0 := by norm_num
  constructor
  · rw [le_div_iff₀ hdpos]
    calc (2 : ℚ) ^ ((Nat.log2 n : ℤ) - Nat.log2 d - 1) * d
        ≤ 2 ^ ((Nat.log2 n : ℤ) - Nat.log2 d - 1) * 2 ^ ((Nat.log2 d : ℤ) + 1) := by
          gcongr
          exact (lt_two_zpow_of_log2 d).le
      _ = 2 ^ (Nat.log2 n : ℤ) := by
          rw [← zpow_add₀ htwo]
          congr 1
          ring
      _ ≤ n := two_zpow_le_of_log2 hn
  · rw [div_lt_iff₀ hdpos]
    calc (n : ℚ) < 2 ^ ((Nat.log2 n : ℤ) + 1) := lt_two_zpow_of_log2 n
      _ = 2 ^ ((Nat.log2 n : ℤ) - Nat.log2 d + 1) * 2 ^ (Nat.log2 d : ℤ) := by
          rw [← zpow_add₀ htwo]
          congr 1
          ring
      _ ≤ 2 ^ ((Nat.log2 n : ℤ) - Nat.log2 d + 1) * d := by
          gcongr
          exact two_zpow_le_of_log2 hd

/-- A quotient is compared with a power of two in whole numbers. -/
theorem lt_two_zpow_iff (n : ℕ) {d : ℕ} (hd : 0 < d) (t : ℤ) :
    n * Nat.pow 2 (-t).toNat < d * Nat.pow 2 t.toNat ↔ (n / d : ℚ) < 2 ^ t := by
  have hpow : (0 : ℚ) < (d * Nat.pow 2 t.toNat : ℕ) := by
    exact_mod_cast Nat.mul_pos hd (Nat.pow_pos (by decide))
  have hpos : (0 : ℚ) < 2 ^ t := by positivity
  have hquotient := mul_pow_div (b := 2) (by decide) n d (-t)
  rw [neg_neg, div_eq_iff hpow.ne', zpow_neg, Nat.cast_ofNat] at hquotient
  rw [← @Nat.cast_lt ℚ, hquotient, mul_lt_iff_lt_one_left hpow, ← div_eq_mul_inv, div_lt_one hpos]

/-- At the fitting exponent the significand has at most 53 binary digits, and no fewer unless the
exponent is the least there is. -/
theorem fittingExponent_spec {n d : ℕ} (hn : 0 < n) (hd : 0 < d) :
    -1074 ≤ fittingExponent n d ∧
      (n / d : ℚ) < 2 ^ (fittingExponent n d + 53) ∧
        (fittingExponent n d = -1074 ∨ (2 : ℚ) ^ (fittingExponent n d + 52) ≤ n / d) := by
  obtain ⟨hlower, hupper⟩ := log2_quotient_bounds hn hd
  rw [fittingExponent]
  generalize hguess : (Nat.log2 n : ℤ) - Nat.log2 d - 53 = guess
  have hdifference : (Nat.log2 n : ℤ) - Nat.log2 d = guess + 53 := by omega
  rw [hdifference] at hlower hupper
  -- One of the two exponents that the bounds leave open has 53 digits.
  have hchoice : ∃ e : ℤ,
      (if n * Nat.pow 2 (-(guess + 53)).toNat < d * Nat.pow 2 (guess + 53).toNat then guess
        else guess + 1) = e ∧ (n / d : ℚ) < 2 ^ (e + 53) ∧ (2 : ℚ) ^ (e + 52) ≤ n / d := by
    split_ifs with hfits
    · refine ⟨guess, rfl, (lt_two_zpow_iff n hd _).mp hfits, ?_⟩
      rwa [add_sub_assoc] at hlower
    · refine ⟨guess + 1, rfl, ?_, ?_⟩
      · rwa [add_right_comm]
      · rw [add_assoc]
        exact not_lt.mp (mt (lt_two_zpow_iff n hd _).mpr hfits)
  obtain ⟨e, he, hlt, hle⟩ := hchoice
  rw [he]
  rcases le_total (-1074) e with h | h
  · rw [max_eq_right h]
    exact ⟨h, hlt, .inr hle⟩
  · rw [max_eq_left h]
    refine ⟨le_rfl, hlt.trans_le ?_, .inl rfl⟩
    exact zpow_le_zpow_right₀ (by norm_num) (by omega)

/-! ### The nearest rank -/

/-- Counting `q` ranks from the start of the block before the one with spacing `2 ^ (k - 1074)`
gives the magnitude `q * 2 ^ (k - 1074)`, also at the first rank of the block after it. -/
theorem rankValue_block {k q : ℕ} (hk : k = 0 ∨ blockSize ≤ q) (hq : q ≤ 2 * blockSize) :
    rankValue (k * blockSize + q) = q * 2 ^ (k - 1074 : ℤ) := by
  by_cases hsmall : k * blockSize + q < blockSize
  · obtain rfl : k = 0 := by
      rcases hk with hk | hk
      · exact hk
      · omega
    rw [rankValue_of_lt hsmall]
    simp
  · rw [rankValue_of_le (by omega)]
    by_cases hlast : q = 2 * blockSize
    · have hdiv : (k * blockSize + q) / blockSize = k + 2 := by unfold blockSize at *; omega
      have hmod : (k * blockSize + q) % blockSize = 0 := by unfold blockSize at *; omega
      have hexponent : ((k + 2 : ℕ) - 1075 : ℤ) = k - 1074 + 1 := by
        push_cast
        ring
      rw [hdiv, hmod, hexponent, hlast, zpow_add_one₀ (by norm_num)]
      push_cast
      ring
    · have hdiv : (k * blockSize + q) / blockSize = k + 1 := by unfold blockSize at *; omega
      have hmod : (k * blockSize + q) % blockSize = q - blockSize := by
        unfold blockSize at *; omega
      have hexponent : ((k + 1 : ℕ) - 1075 : ℤ) = k - 1074 := by
        push_cast
        ring
      have hge : blockSize ≤ q := by unfold blockSize at *; omega
      rw [hdiv, hmod, hexponent, Nat.cast_sub hge]
      push_cast
      ring

/-- The spacing after such a rank is at least that of the block. -/
theorem le_exponent_block (k q : ℕ) (hk : k = 0 ∨ blockSize ≤ q) :
    (k - 1074 : ℤ) ≤ exponent (k * blockSize + q) := by
  unfold exponent blockSize at *
  split_ifs <;> omega

/-- The spacing before such a rank is that of the block, or half of it at the block's start. -/
theorem exponent_block_pred {k q : ℕ} (hk : k = 0 ∨ blockSize ≤ q) (hpos : 0 < q)
    (hq : q ≤ 2 * blockSize) :
    exponent (k * blockSize + q - 1) = k - 1074 ∨ (0 < k ∧ q = blockSize) := by
  unfold exponent blockSize at *
  split_ifs <;> omega

theorem midpoint_pred {r : ℕ} (hr : 0 < r) :
    midpoint (r - 1) = rankValue r - 2 ^ exponent (r - 1) / 2 := by
  obtain ⟨s, rfl⟩ := Nat.exists_eq_add_one.mpr hr
  rw [Nat.add_sub_cancel, rankValue_succ, midpoint_eq]
  ring

/-- What is nearest to `q` units of its block rounds to the rank with that many units. -/
theorem roundsTo_block {k q : ℕ} {x : ℚ} (hpos : 0 < q) (hq : q ≤ 2 * blockSize)
    (hnearest : NearestWhole (x / 2 ^ (k - 1074 : ℤ)) q)
    (hblock : k = 0 ∨ blockSize * 2 ^ (k - 1074 : ℤ) ≤ x) (hk : k = 0 ∨ blockSize ≤ q) :
    RoundsTo x (k * blockSize + q) := by
  have hunit : (0 : ℚ) < 2 ^ (k - 1074 : ℤ) := by positivity
  obtain ⟨hge, hle, hodd⟩ := hnearest
  rw [le_div_iff₀ hunit] at hge
  rw [div_le_iff₀ hunit] at hle
  rw [lt_div_iff₀ hunit, div_lt_iff₀ hunit] at hodd
  have hparity : (k * blockSize + q) % 2 = q % 2 := by unfold blockSize; omega
  have habove : (q + 1 / 2) * 2 ^ (k - 1074 : ℤ) ≤ midpoint (k * blockSize + q) := by
    have hspacing : (2 : ℚ) ^ (k - 1074 : ℤ) ≤ 2 ^ exponent (k * blockSize + q) :=
      zpow_le_zpow_right₀ (by norm_num) (le_exponent_block k q hk)
    rw [midpoint_eq, rankValue_block hk hq]
    linarith
  have hbelow : midpoint (k * blockSize + q - 1) ≤ (q - 1 / 2) * 2 ^ (k - 1074 : ℤ) ∨
      midpoint (k * blockSize + q - 1) < x := by
    rw [midpoint_pred (by omega), rankValue_block hk hq]
    rcases exponent_block_pred hk hpos hq with hexponent | ⟨hkpos, rfl⟩
    · left
      rw [hexponent]
      linarith
    · -- At the start of a block the spacing below is smaller, and nothing below is rounded.
      right
      have hstart := hblock.resolve_left hkpos.ne'
      exact (sub_lt_self _ (by positivity)).trans_le hstart
  refine ⟨?_, hle.trans habove, fun h => ?_⟩
  · rcases hbelow with hbelow | hbelow
    · exact hbelow.trans hge
    · exact hbelow.le
  · obtain ⟨hgt, hlt⟩ := hodd (hparity ▸ h)
    refine ⟨?_, hlt.trans_le habove⟩
    rcases hbelow with hbelow | hbelow
    · exact hbelow.trans_lt hgt
    · exact hbelow

/-- **The nearest rank is the one that the quotient rounds to**, unless the quotient is so small
that it rounds to zero. -/
theorem roundsTo_nearestRank {n d : ℕ} (hn : 0 < n) (hd : 0 < d)
    (hlarge : midpoint 0 < (n / d : ℚ)) :
    0 < nearestRank n d ∧ RoundsTo (n / d) (nearestRank n d) := by
  obtain ⟨hmin, hupper, hlower⟩ := fittingExponent_spec hn hd
  have hnearest := nearestWhole_scaledQuotient n hd (-fittingExponent n d)
  rw [nearestRank, if_neg hn.ne']
  dsimp only
  generalize fittingExponent n d = e at *
  generalize scaledQuotient n d (-e) = q at *
  generalize (n / d : ℚ) = x at *
  obtain ⟨k, hk⟩ := Int.eq_ofNat_of_zero_le (a := e + 1074) (by omega)
  obtain rfl : e = k - 1074 := by omega
  have hindex : ((k - 1074 : ℤ) + 1074).toNat = k := by omega
  have hunit : (0 : ℚ) < 2 ^ (k - 1074 : ℤ) := by positivity
  rw [zpow_neg, ← div_eq_mul_inv] at hnearest
  rw [zpow_add₀ two_ne_zero, mul_comm, ← div_lt_iff₀ hunit] at hupper
  rw [zpow_add₀ two_ne_zero, mul_comm] at hlower
  have hpower : (2 : ℚ) ^ (52 : ℤ) = blockSize := by norm_num [blockSize]
  rw [hpower] at hlower
  have hblock : k = 0 ∨ (blockSize : ℚ) * 2 ^ (k - 1074 : ℤ) ≤ x :=
    hlower.imp_left fun h => by omega
  have hk : k = 0 ∨ blockSize ≤ q := by
    refine hblock.imp_right fun h => ?_
    have hlt : (blockSize : ℚ) < q + 1 := by
      have := (le_div_iff₀ hunit).mpr h
      linarith [hnearest.2.1]
    exact Nat.lt_add_one_iff.mp (by exact_mod_cast hlt)
  have hq : q ≤ 2 * blockSize := by
    have hlt : (q : ℚ) < (2 * blockSize + 1 : ℕ) := by
      have hpower' : (2 : ℚ) ^ (53 : ℤ) = 2 * blockSize := by norm_num [blockSize]
      rw [hpower'] at hupper
      push_cast
      linarith [hnearest.1]
    exact Nat.lt_add_one_iff.mp (by exact_mod_cast hlt)
  have hpos : 0 < q := by
    by_contra hzero
    obtain rfl : q = 0 := by omega
    obtain rfl : k = 0 := hk.resolve_right (by decide)
    have hle := (div_le_iff₀ hunit).mp hnearest.2.1
    rw [midpoint_eq, rankValue_of_lt (by decide), exponent, if_pos (by decide)] at hlarge
    simp only [Nat.cast_zero, zero_sub, zero_mul, zero_add] at hle hlarge
    linarith
  rw [hindex]
  exact ⟨by omega, roundsTo_block hpos hq hnearest hblock hk⟩

/-! ### Decimals -/

theorem lt_ten_pow_digitCount (n : ℕ) : n < 10 ^ digitCount n :=
  (Nat.length_toDigits_le_iff (by decide) Nat.length_toDigits_pos).mp le_rfl

theorem ten_pow_le_of_digitCount {n : ℕ} (hn : 0 < n) : 10 ^ (digitCount n - 1) ≤ n := by
  have hlength : 0 < digitCount n := Nat.length_toDigits_pos
  rcases Nat.eq_zero_or_pos (digitCount n - 1) with hzero | hpos
  · rw [hzero]
    exact hn
  · rw [← not_lt, ← Nat.length_toDigits_le_iff (by decide) hpos]
    exact not_le.mpr (Nat.sub_one_lt hlength.ne')

/-- The number of digits bounds a decimal between two powers of ten. -/
theorem decimal_bounds {digits : ℕ} (hdigits : 0 < digits) (exponent : ℤ) :
    (10 : ℚ) ^ (digitCount digits + exponent - 1) ≤ digits * 10 ^ exponent ∧
      (digits * 10 ^ exponent : ℚ) < 10 ^ (digitCount digits + exponent) := by
  have hten : (10 : ℚ) ≠ 0 := by norm_num
  have hlength : 0 < digitCount digits := Nat.length_toDigits_pos
  have hlower : (10 : ℚ) ^ (digitCount digits - 1) ≤ digits := by
    exact_mod_cast ten_pow_le_of_digitCount hdigits
  have hupper : (digits : ℚ) < 10 ^ digitCount digits := by
    exact_mod_cast lt_ten_pow_digitCount digits
  have hexponent : (digitCount digits + exponent - 1 : ℤ) =
      (digitCount digits - 1 : ℕ) + exponent := by omega
  rw [hexponent, zpow_add₀ hten, zpow_add₀ hten, zpow_natCast, zpow_natCast]
  exact ⟨mul_le_mul_of_nonneg_right hlower (by positivity),
    mul_lt_mul_of_pos_right hupper (by positivity)⟩

/-- Below `10 ^ -331` everything rounds to zero. -/
theorem ten_zpow_lt_midpoint : (10 : ℚ) ^ (-331 : ℤ) < midpoint 0 := by
  have hpow : 2 * 2 ^ 1074 < 10 ^ 331 := by decide +kernel
  have hcast : (2 : ℚ) * 2 ^ (1074 : ℤ) < 10 ^ (331 : ℤ) := by exact_mod_cast hpow
  have hzero : midpoint 0 = (2 * 2 ^ (1074 : ℤ))⁻¹ := by
    rw [midpoint_eq, rankValue_of_lt (by decide), exponent, if_pos (by decide), zpow_neg]
    simp only [Nat.cast_zero, zero_mul, zero_add]
    ring
  rw [hzero, zpow_neg]
  exact inv_strictAnti₀ (by positivity) hcast

/-- From `10 ^ 310` on everything is infinite. -/
theorem midpoint_lt_ten_zpow {r : ℕ} (hr : r < rankCount) : midpoint r < (10 : ℚ) ^ (310 : ℤ) := by
  have hpow : blockSize * 2 ^ 972 < 10 ^ 310 := by decide +kernel
  have hcast : (blockSize : ℚ) * 2 ^ (972 : ℤ) < 10 ^ (310 : ℤ) := by exact_mod_cast hpow
  have hend : rankValue rankCount = blockSize * 2 ^ (972 : ℤ) :=
    rankValue_block (k := 2046) (.inr le_rfl) (by decide)
  have hpred : midpoint (rankCount - 1) < rankValue rankCount := by
    rw [midpoint_pred (by decide)]
    exact sub_lt_self _ (by positivity)
  calc midpoint r ≤ midpoint (rankCount - 1) := midpoint_strictMono.monotone (by omega)
    _ < rankValue rankCount := hpred
    _ < 10 ^ (310 : ℤ) := hend ▸ hcast

/-- **A decimal that rounds to a positive rank is read as the number of that rank.** -/
theorem ofDecimal_of_roundsTo {digits r : ℕ} {exponent : ℤ} (negative : Bool) (hpos : 0 < r)
    (hr : r < rankCount) (h : RoundsTo (digits * 10 ^ exponent) r) :
    ofDecimal negative digits exponent = .finite negative r hr := by
  obtain ⟨hge, hle, hodd⟩ := id h
  have hlarge : midpoint 0 < digits * 10 ^ exponent := by
    rcases Nat.lt_or_ge 1 r with hr' | hr'
    · exact (midpoint_strictMono (by omega : 0 < r - 1)).trans_le hge
    · obtain rfl : r = 1 := by omega
      exact (hodd rfl).1
  have hdigits : 0 < digits := by
    refine Nat.pos_of_ne_zero fun hzero => ?_
    rw [hzero, Nat.cast_zero, zero_mul] at hlarge
    exact (midpoint_pos 0).not_gt hlarge
  obtain ⟨hlower, hupper⟩ := decimal_bounds hdigits exponent
  have hnotSmall : ¬(digitCount digits + exponent < -330) := fun hsmall => by
    have hpow : (10 : ℚ) ^ (digitCount digits + exponent) ≤ 10 ^ (-331 : ℤ) :=
      zpow_le_zpow_right₀ (by norm_num) (by omega)
    linarith [ten_zpow_lt_midpoint]
  have hnotLarge : ¬(310 < digitCount digits + exponent) := fun hbig => by
    have hpow : (10 : ℚ) ^ (310 : ℤ) ≤ 10 ^ (digitCount digits + exponent - 1) :=
      zpow_le_zpow_right₀ (by norm_num) (by omega)
    linarith [midpoint_lt_ten_zpow hr]
  rw [ofDecimal]
  dsimp only
  rw [if_neg (not_or.mpr ⟨hdigits.ne', hnotSmall⟩), if_neg hnotLarge]
  have hquotient := mul_pow_div (b := 10) (by decide) digits 1 exponent
  rw [Nat.cast_one, div_one, one_mul, Nat.cast_ofNat] at hquotient
  have hten : ∀ k, 0 < Nat.pow 10 k := fun k => Nat.pow_pos (by decide)
  obtain ⟨hnearest, hrounds⟩ := roundsTo_nearestRank (Nat.mul_pos hdigits (hten _)) (hten _)
    (hquotient.symm ▸ hlarge)
  rw [hquotient] at hrounds
  rw [hrounds.unique hnearest hpos h, ofRank, dif_pos hr]

theorem ofDecimal_zero (negative : Bool) (exponent : ℤ) :
    ofDecimal negative 0 exponent = .finite negative 0 (by decide) := by
  rw [ofDecimal]
  dsimp only
  rw [if_pos (.inl rfl), ofRank, dif_pos (by decide)]

/-! ### Reading the text back -/

/-- A numeral with a fraction or an exponent is the double that its decimal rounds to. -/
theorem value?_of_roundsTo {t : Numeral} {r : ℕ} (hr : r < rankCount)
    (hfloat : t.fraction ≠ none ∨ t.exponent ≠ none)
    (h : r = 0 ∧ t.toRat = 0 ∨ 0 < r ∧ RoundsTo t.toRat r) :
    t.value? = some (.float (.finite t.negative r hr)) := by
  have hdecimal : ofDecimal t.negative (digitsValue (t.whole ++ t.fraction.getD []))
      (t.exponent.getD 0 - ((t.fraction.getD []).length : ℤ)) = .finite t.negative r hr := by
    rcases h with ⟨rfl, hzero⟩ | ⟨hpos, hrounds⟩
    · have hdigits : digitsValue (t.whole ++ t.fraction.getD []) = 0 := by
        rcases mul_eq_zero.mp hzero with hdigits | hpow
        · exact_mod_cast hdigits
        · exact absurd hpow (zpow_ne_zero _ (by norm_num))
      rw [hdigits, ofDecimal_zero]
    · exact ofDecimal_of_roundsTo t.negative hpos hr hrounds
  have htoFloat : t.toFloat? = some (.float (.finite t.negative r hr)) := by
    rw [Numeral.toFloat?]
    simp only [hdecimal]
    rfl
  rw [Numeral.value?_of_integer?_eq_none (Numeral.integer?_eq_none_iff.mpr hfloat), htoFloat]

/-- **The text of a finite number is read back as the number**, in every style. -/
theorem Style.value?_text (style : Style) {x : Double} (hx : x.isFinite = true) {rest : List Char}
    (hrest : EndsNumber rest) :
    ∃ t, readNumeral ((style.text x).toList ++ rest) = some (t, rest) ∧
      t.value? = some (.float x) := by
  cases x with
  | finite negative r hr =>
    obtain ⟨t, ht, rfl, hfloat, hrat⟩ := style.readNumeral_text negative r hr hrest
    refine ⟨t, ht, value?_of_roundsTo hr hfloat ?_⟩
    rw [hrat]
    rcases Nat.eq_zero_or_pos r with rfl | hpos
    · exact .inl ⟨rfl, toRat_shortest_zero style.tie⟩
    · exact .inr ⟨hpos, roundsTo_shortest style.tie hpos⟩
  | infinite negative => cases hx
  | nan => cases hx

end QueryComposer.Double
