import Mathlib.Algebra.Order.Field.Power
import Mathlib.Algebra.Order.Field.Rat
import Mathlib.Order.Monotone.Basic
import Mathlib.Tactic.FieldSimp
import Mathlib.Tactic.Linarith
import Mathlib.Tactic.NormNum
import Mathlib.Tactic.Positivity
import Mathlib.Tactic.Ring
import QueryComposer.Double.Shortest

/-!
# The shortest digits identify a magnitude

`rankValue r` is the magnitude of rank `r` as a rational number and `midpoint r` lies halfway
between it and the next one.  `RoundsTo x r` says that `x` lies between the two midpoints around
rank `r`, the ends included when the rank is even.  Each rational rounds to at most one rank
(`RoundsTo.unique`), the search for the shortest digits never leaves the interval of its rank
(`roundsTo_shortest`), and so magnitudes with the same shortest decimal are the same
(`shortest_inj`).
-/

namespace QueryComposer.Double

/-! ### Magnitudes and midpoints -/

/-- The magnitude of rank `r`. -/
def rankValue (r : ℕ) : ℚ := significand r * 2 ^ exponent r

/-- The number halfway between the magnitudes of ranks `r` and `r + 1`. -/
def midpoint (r : ℕ) : ℚ := (4 * significand r + 2) * 2 ^ (exponent r - 2)

theorem two_zpow_sub_two (q : ℤ) : (2 : ℚ) ^ (q - 2) = 2 ^ q / 4 := by
  rw [zpow_sub₀ (by norm_num)]
  norm_num

theorem rankValue_of_lt {r : ℕ} (h : r < blockSize) : rankValue r = r * 2 ^ (-1074 : ℤ) := by
  rw [rankValue, significand, exponent, if_pos h, if_pos h]

theorem rankValue_of_le {r : ℕ} (h : blockSize ≤ r) :
    rankValue r = (blockSize + (r % blockSize : ℕ)) * 2 ^ ((r / blockSize : ℕ) - 1075 : ℤ) := by
  rw [rankValue, significand, exponent, if_neg (by omega), if_neg (by omega)]
  push_cast
  rfl

/-- The spacing after rank `r` is two to its exponent, also at the end of a block. -/
theorem rankValue_succ (r : ℕ) : rankValue (r + 1) = rankValue r + 2 ^ exponent r := by
  by_cases hr : r < blockSize
  · rw [rankValue_of_lt hr, exponent, if_pos hr]
    by_cases hlast : r + 1 < blockSize
    · rw [rankValue_of_lt hlast, Nat.cast_add_one, add_one_mul]
    · -- The last subnormal number: the first block above it has the same spacing.
      have hsucc : r + 1 = blockSize := by omega
      have hcast : (blockSize : ℚ) = (r : ℚ) + 1 := by rw [← hsucc, Nat.cast_add_one]
      have hexponent : ((1 : ℕ) - 1075 : ℤ) = -1074 := by norm_num
      rw [hsucc, rankValue_of_le le_rfl, Nat.mod_self, Nat.div_self (by omega), hcast, hexponent,
        Nat.cast_zero, add_zero, add_one_mul]
  · have hle : blockSize ≤ r := by omega
    rw [rankValue_of_le hle, rankValue_of_le (by omega), exponent, if_neg hr]
    by_cases hmod : (r + 1) % blockSize = 0
    · -- The last number of a block: the next one has half the significand and twice the spacing.
      have hrmod : r % blockSize = blockSize - 1 := by unfold blockSize at *; omega
      have hdiv : (r + 1) / blockSize = r / blockSize + 1 := by unfold blockSize at *; omega
      have hstep : ((r / blockSize + 1 : ℕ) - 1075 : ℤ) = (r / blockSize : ℕ) - 1075 + 1 := by
        push_cast
        ring
      rw [hmod, hrmod, hdiv, hstep, zpow_add_one₀ (by norm_num)]
      push_cast
      ring
    · have hrmod : (r + 1) % blockSize = r % blockSize + 1 := by unfold blockSize at *; omega
      have hdiv : (r + 1) / blockSize = r / blockSize := by unfold blockSize at *; omega
      rw [hrmod, hdiv]
      push_cast
      ring

theorem midpoint_eq (r : ℕ) : midpoint r = rankValue r + 2 ^ exponent r / 2 := by
  rw [midpoint, rankValue, two_zpow_sub_two]
  ring

theorem midpoint_pos (r : ℕ) : 0 < midpoint r := by
  rw [midpoint]
  positivity

theorem midpoint_strictMono : StrictMono midpoint := by
  refine strictMono_nat_of_lt_succ fun r => ?_
  rw [midpoint_eq, midpoint_eq, rankValue_succ]
  have hpos : (0 : ℚ) < 2 ^ exponent r := by positivity
  have hpos' : (0 : ℚ) < 2 ^ exponent (r + 1) := by positivity
  linarith

/-! ### Rounding -/

/-- The rational lies between the midpoints around rank `r`, or on one of them if the rank is
even. -/
def RoundsTo (x : ℚ) (r : ℕ) : Prop :=
  midpoint (r - 1) ≤ x ∧ x ≤ midpoint r ∧ (r % 2 = 1 → midpoint (r - 1) < x ∧ x < midpoint r)

/-- No rational rounds to two ranks: neighbours have one end in common, and only the even one
includes it. -/
theorem RoundsTo.unique {x : ℚ} {r s : ℕ} (hr : 0 < r) (hs : 0 < s) (hxr : RoundsTo x r)
    (hxs : RoundsTo x s) : r = s := by
  wlog hle : r ≤ s generalizing r s
  · exact (this hs hr hxs hxr (by omega)).symm
  by_contra hne
  have hmid : midpoint r ≤ midpoint (s - 1) := midpoint_strictMono.monotone (by omega)
  obtain ⟨-, hxr_le, hxr_odd⟩ := hxr
  obtain ⟨hxs_ge, -, hxs_odd⟩ := hxs
  have heq : midpoint r = midpoint (s - 1) := by linarith
  have hsucc : r = s - 1 := midpoint_strictMono.injective heq
  -- One of two neighbouring ranks is odd and excludes its ends.
  rcases Nat.mod_two_eq_zero_or_one r with heven | hodd
  · have := (hxs_odd (by omega)).1
    linarith
  · have := (hxr_odd hodd).2
    linarith

/-! ### The interval of a rank -/

theorem significand_pos {r : ℕ} (hr : 0 < r) : 0 < significand r := by
  unfold significand
  split
  · exact hr
  · exact Nat.add_pos_left (by decide) _

/-- Ranks and significands are even together. -/
theorem significand_mod_two (r : ℕ) : significand r % 2 = r % 2 := by
  unfold significand blockSize
  split
  · rfl
  · omega

/-- A quarter of the last binary place, in units of the interval. -/
def quarter (r : ℕ) : ℕ :=
  if exponent r < 2 then 5 ^ (2 - exponent r).toNat else 2 ^ (exponent r - 2).toNat

theorem quarter_pos (r : ℕ) : 0 < quarter r := by
  unfold quarter
  split <;> positivity

/-- A quarter has the value of a quarter of the last binary place. -/
theorem quarter_mul (r : ℕ) :
    (quarter r : ℚ) * 10 ^ (-((Interval.ofRank r).places : ℤ)) = 2 ^ (exponent r - 2) := by
  show (quarter r : ℚ) * 10 ^ (-((2 - exponent r).toNat : ℤ)) = 2 ^ (exponent r - 2)
  unfold quarter
  by_cases hq : exponent r < 2
  · have hexp : exponent r - 2 = -((2 - exponent r).toNat : ℤ) := by omega
    rw [if_pos hq, hexp]
    generalize (2 - exponent r).toNat = n
    have hten : (10 : ℚ) ^ n = 5 ^ n * 2 ^ n := by rw [← mul_pow]; norm_num
    rw [zpow_neg, zpow_neg, zpow_natCast, zpow_natCast, hten, Nat.cast_pow, Nat.cast_ofNat]
    field_simp
  · have hexp : ((exponent r - 2).toNat : ℤ) = exponent r - 2 := by omega
    have hzero : (2 - exponent r).toNat = 0 := by omega
    rw [if_neg hq, hzero, ← hexp, Int.toNat_natCast, zpow_natCast]
    push_cast
    rw [mul_one]

/-- Only at the first rank of a block is the spacing before a magnitude smaller than after it. -/
theorem exponent_pred (r : ℕ) :
    exponent (r - 1) =
      if (r % blockSize == 0 && decide (blockSize < r)) = true then exponent r - 1
      else exponent r := by
  simp only [Bool.and_eq_true, beq_iff_eq, decide_eq_true_eq]
  unfold exponent blockSize
  split_ifs <;> omega

theorem low_mul {r : ℕ} (hr : 0 < r) :
    ((Interval.ofRank r).low : ℚ) * 10 ^ (-((Interval.ofRank r).places : ℤ)) =
      midpoint (r - 1) := by
  have hspacing : rankValue r = rankValue (r - 1) + 2 ^ exponent (r - 1) := by
    rw [← rankValue_succ, Nat.sub_add_cancel hr]
  have hm := significand_pos hr
  have hlow : ((Interval.ofRank r).low : ℚ) =
      (if (r % blockSize == 0 && decide (blockSize < r)) = true then 4 * (significand r : ℚ) - 1
        else 4 * significand r - 2) * quarter r := by
    show (((if (r % blockSize == 0 && decide (blockSize < r)) = true then 4 * significand r - 1
      else 4 * significand r - 2) * quarter r : ℕ) : ℚ) = _
    split_ifs
    · rw [Nat.cast_mul, Nat.cast_sub (by omega)]
      push_cast
      rfl
    · rw [Nat.cast_mul, Nat.cast_sub (by omega)]
      push_cast
      rfl
  rw [hlow, mul_assoc, quarter_mul, midpoint_eq, two_zpow_sub_two]
  have hvalue : rankValue (r - 1) = significand r * 2 ^ exponent r - 2 ^ exponent (r - 1) := by
    rw [← rankValue, hspacing]
    ring
  rw [hvalue, exponent_pred]
  split_ifs
  · rw [zpow_sub_one₀ (by norm_num)]
    ring
  · ring

theorem high_mul (r : ℕ) :
    ((Interval.ofRank r).high : ℚ) * 10 ^ (-((Interval.ofRank r).places : ℤ)) = midpoint r := by
  show (((4 * significand r + 2) * quarter r : ℕ) : ℚ) * _ = _
  rw [Nat.cast_mul, mul_assoc, quarter_mul, midpoint]
  push_cast
  rfl

/-- The interval of a rank holds the multiples of its unit that round to the rank. -/
theorem contains_ofRank_iff {r : ℕ} (hr : 0 < r) (n : ℕ) :
    (Interval.ofRank r).contains n = true ↔
      RoundsTo (n * 10 ^ (-((Interval.ofRank r).places : ℤ))) r := by
  have hunit : (0 : ℚ) < 10 ^ (-((Interval.ofRank r).places : ℤ)) := by positivity
  have hle_low : (Interval.ofRank r).low ≤ n ↔
      midpoint (r - 1) ≤ n * 10 ^ (-((Interval.ofRank r).places : ℤ)) := by
    rw [← low_mul hr, mul_le_mul_iff_left₀ hunit, Nat.cast_le]
  have hlt_low : (Interval.ofRank r).low < n ↔
      midpoint (r - 1) < n * 10 ^ (-((Interval.ofRank r).places : ℤ)) := by
    rw [← low_mul hr, mul_lt_mul_iff_left₀ hunit, Nat.cast_lt]
  have hle_high : n ≤ (Interval.ofRank r).high ↔
      n * 10 ^ (-((Interval.ofRank r).places : ℤ)) ≤ midpoint r := by
    rw [← high_mul r, mul_le_mul_iff_left₀ hunit, Nat.cast_le]
  have hlt_high : n < (Interval.ofRank r).high ↔
      n * 10 ^ (-((Interval.ofRank r).places : ℤ)) < midpoint r := by
    rw [← high_mul r, mul_lt_mul_iff_left₀ hunit, Nat.cast_lt]
  have hclosed : (Interval.ofRank r).closed = (r % 2 == 0) := by
    rw [← significand_mod_two]
    rfl
  rw [RoundsTo, Interval.contains, hclosed, ← hle_low, ← hle_high, ← hlt_low, ← hlt_high]
  rcases Nat.mod_two_eq_zero_or_one r with heven | hodd
  · simp [heven]
  · rw [hodd, if_neg (by decide), Bool.and_eq_true, decide_eq_true_eq, decide_eq_true_eq]
    constructor
    · rintro ⟨hlow, hhigh⟩
      exact ⟨hlow.le, hhigh.le, fun _ => ⟨hlow, hhigh⟩⟩
    · rintro ⟨-, -, h⟩
      exact h rfl

/-! ### The search -/

/-- The rational number that the decimal writes. -/
def Decimal.toRat (d : Decimal) : ℚ := d.digits * 10 ^ d.exponent

/-- A candidate on a grid lies in the interval. -/
theorem Interval.contains_of_candidate {i : Interval} {tie : Tie} {j digits : ℕ}
    (h : i.candidate tie j = some digits) : i.contains (digits * 10 ^ j) = true := by
  simp only [Interval.candidate] at h
  split at h
  · cases h
  · rename_i hbelow _
    cases h
    exact hbelow
  · rename_i _ habove
    cases h
    exact habove
  · rename_i hbelow habove
    split at h
    · cases h
      exact hbelow
    · split at h
      · cases h
        exact habove
      · split at h
        · cases h
          split
          · exact hbelow
          · exact habove
        · cases h
          exact habove

/-- What the search gives is a number of units in the interval. -/
theorem Interval.search_spec {i : Interval} (tie : Tie) (hvalue : i.contains i.value = true) :
    ∀ j, ∃ n, i.contains n = true ∧ (i.search tie j).toRat = n * 10 ^ (-(i.places : ℤ)) := by
  intro j
  induction j with
  | zero => exact ⟨i.value, hvalue, rfl⟩
  | succ j ih =>
    rw [Interval.search]
    split
    · exact ih
    · rename_i digits hdigits
      refine ⟨digits * 10 ^ (j + 1), contains_of_candidate hdigits, ?_⟩
      rw [Decimal.toRat, zpow_sub₀ (by norm_num), zpow_natCast, zpow_neg, zpow_natCast]
      push_cast
      field_simp

/-- The magnitude itself lies in its interval. -/
theorem contains_value {r : ℕ} (hr : 0 < r) :
    (Interval.ofRank r).contains (Interval.ofRank r).value = true := by
  have hm := significand_pos hr
  have hquarter := quarter_pos r
  have hlow : (Interval.ofRank r).low < (Interval.ofRank r).value := by
    show (if (r % blockSize == 0 && decide (blockSize < r)) = true then 4 * significand r - 1
      else 4 * significand r - 2) * quarter r < 4 * significand r * quarter r
    refine Nat.mul_lt_mul_of_pos_right ?_ hquarter
    split_ifs
    · omega
    · omega
  have hhigh : (Interval.ofRank r).value < (Interval.ofRank r).high := by
    show 4 * significand r * quarter r < (4 * significand r + 2) * quarter r
    exact Nat.mul_lt_mul_of_pos_right (by omega) hquarter
  unfold Interval.contains
  split
  · simp [hlow.le, hhigh.le]
  · simp [hlow, hhigh]

/-- The shortest decimal of a positive magnitude rounds to its rank. -/
theorem roundsTo_shortest (tie : Tie) {r : ℕ} (hr : 0 < r) : RoundsTo (shortest tie r).toRat r := by
  simp only [shortest, if_neg hr.ne']
  obtain ⟨n, hn, hrat⟩ := Interval.search_spec tie (contains_value hr)
    ((Nat.toDigits 10 (Interval.ofRank r).value).length - 1)
  generalize (Interval.ofRank r).search tie _ = d at hrat ⊢
  have hd : RoundsTo d.toRat r := by
    rw [hrat]
    exact (contains_ofRank_iff hr n).mp hn
  split
  · rename_i hten
    rwa [show (Decimal.mk 1 (d.exponent + 1)).toRat = d.toRat by
      rw [Decimal.toRat, Decimal.toRat, hten, zpow_add_one₀ (by norm_num)]
      push_cast
      ring]
  · exact hd

theorem toRat_shortest_zero (tie : Tie) : (shortest tie 0).toRat = 0 := by
  simp [shortest, Decimal.toRat]

theorem toRat_shortest_pos (tie : Tie) {r : ℕ} (hr : 0 < r) : 0 < (shortest tie r).toRat :=
  (midpoint_pos (r - 1)).trans_le (roundsTo_shortest tie hr).1

/-- **The shortest decimal identifies the magnitude.** -/
theorem shortest_inj {tie : Tie} {r s : ℕ}
    (h : (shortest tie r).toRat = (shortest tie s).toRat) : r = s := by
  rcases Nat.eq_zero_or_pos r with rfl | hr
  · rcases Nat.eq_zero_or_pos s with rfl | hs
    · rfl
    · have := toRat_shortest_pos tie hs
      rw [← h, toRat_shortest_zero] at this
      exact absurd this (lt_irrefl 0)
  · rcases Nat.eq_zero_or_pos s with rfl | hs
    · have := toRat_shortest_pos tie hr
      rw [h, toRat_shortest_zero] at this
      exact absurd this (lt_irrefl 0)
    · exact (roundsTo_shortest tie hr).unique hr hs (h ▸ roundsTo_shortest tie hs)

end QueryComposer.Double
