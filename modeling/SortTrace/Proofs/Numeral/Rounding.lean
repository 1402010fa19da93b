import SortTrace.Numeral.Shortest
import SortTrace.Proofs.Numeral.Whole
import Mathlib.Tactic.Ring

/-!
Rounding: every fraction in the rounding range of a finite number is rounded to that number.
-/

namespace SortTrace.Numeral

/-- A fraction rounded to a whole number; of two equally near ones, the even one. -/
def roundEven (num step : Nat) : Nat :=
  let below := num / step
  let twice := 2 * (num % step)
  if step < twice || (twice == step && below % 2 == 1) then below + 1 else below

theorem roundEven_eq {num step m : Nat} (low : 2 * (m * step) ≤ 2 * num + step)
    (high : 2 * num ≤ 2 * (m * step) + step) (positive : 0 < step)
    (ties : 2 * (m * step) = 2 * num + step ∨ 2 * num = 2 * (m * step) + step → m % 2 = 0) :
    roundEven num step = m := by
  have split : num / step * step + num % step = num := Nat.div_add_mod' num step
  have small : num % step < step := Nat.mod_lt num positive
  unfold roundEven
  generalize num / step = below at split ⊢
  generalize num % step = r at split small ⊢
  dsimp only
  have notAbove : below ≤ m := by
    refine Nat.le_of_not_lt fun above => ?_
    have more := Nat.mul_le_mul_right step (show m + 1 ≤ below by omega)
    rw [Nat.add_mul] at more
    omega
  have near : m ≤ below + 1 := by
    refine Nat.le_of_not_lt fun far => ?_
    have less := Nat.mul_le_mul_right step (show below + 2 ≤ m by omega)
    rw [Nat.add_mul] at less
    omega
  obtain rfl | rfl : below = m ∨ m = below + 1 := by omega
  · have half : 2 * r ≤ step := by omega
    rw [if_neg]
    simp only [Bool.or_eq_true, decide_eq_true_eq, Bool.and_eq_true, beq_iff_eq, not_or, not_and]
    exact ⟨by omega, fun tie => by have even := ties (.inr (by omega)); omega⟩
  · rw [Nat.add_mul] at low ties
    have half : step ≤ 2 * r := by omega
    rw [if_pos]
    simp only [Bool.or_eq_true, decide_eq_true_eq, Bool.and_eq_true, beq_iff_eq]
    rcases Nat.lt_or_eq_of_le half with past | tie
    · exact .inl past
    · exact .inr ⟨tie.symm, by have even := ties (.inl (by omega)); omega⟩

namespace Magnitude

theorem ofUnits_eq (num den : Nat) :
    ofUnits num den =
      let shift := Nat.log2 (num / den) - fractionBits
      ofCode (shift * 2 ^ fractionBits + roundEven num (den * 2 ^ shift)) := rfl

variable {x : Magnitude}

theorem fields_cases (x : Magnitude) :
    (x.scale = 0 ∧ x.significand < 2 ^ 53 ∨ 0 < x.scale ∧ 2 ^ 52 ≤ x.significand ∧
      x.significand < 2 ^ 53 ∧ 1 < x.exponentField) ∧
      x.scale * 2 ^ 52 + x.significand = x.code := by
  have field : x.exponentField = x.code / 2 ^ 52 := rfl
  unfold scale significand
  rw [field, show 2 ^ fractionBits = 2 ^ 52 from rfl]
  by_cases tiny : x.code / 2 ^ 52 = 0
  · rw [if_pos tiny]
    omega
  · rw [if_neg tiny]
    omega

theorem significand_pos (nonzero : x.code ≠ 0) : 0 < x.significand := by
  obtain ⟨⟨unscaled, -⟩ | ⟨-, full, -⟩, code⟩ := x.fields_cases
  · rw [unscaled] at code
    omega
  · omega

theorem ofCode_code (x : Magnitude) : ofCode x.code = x := by
  have le := x.code_le
  obtain ⟨code, _⟩ := x
  simp only [ofCode, Nat.min_eq_left le]

end Magnitude

def RoundingRange.Covers (r : RoundingRange) (quarters den : Nat) : Prop :=
  if r.closed = true then r.low * den ≤ quarters ∧ quarters ≤ r.high * den
  else r.low * den < quarters ∧ quarters < r.high * den

namespace Magnitude

variable {x : Magnitude} {num den : Nat}

/-- The gap below the number, in quarters of a spacing: half of what it is above at the lowest
number of a spacing. -/
theorem low_mul (x : Magnitude) (den : Nat) :
    ∃ k, (k = 2 ∨ k = 1 ∧ x.significand = 2 ^ 52) ∧
      (x.significand = 2 ^ 52 → 0 < x.scale → k = 1) ∧
      x.roundingRange.low * den =
        4 * (x.significand * (den * 2 ^ x.scale)) - k * (den * 2 ^ x.scale) := by
  have spread (k : Nat) : (4 * x.units - k * 2 ^ x.scale) * den =
      4 * (x.significand * (den * 2 ^ x.scale)) - k * (den * 2 ^ x.scale) := by
    rw [Nat.sub_mul, units]
    congr 1 <;> ring
  by_cases narrow : (x.significand == 2 ^ fractionBits && 1 < x.exponentField) = true
  · have lowest : x.significand = 2 ^ fractionBits := by
      rw [Bool.and_eq_true, beq_iff_eq] at narrow
      exact narrow.1
    refine ⟨1, .inr ⟨rfl, lowest⟩, fun _ _ => rfl, ?_⟩
    rw [← spread, Nat.one_mul]
    simp [roundingRange, narrow]
  · refine ⟨2, .inl rfl, fun lowest scaled => absurd ?_ narrow, ?_⟩
    · obtain ⟨⟨unscaled, -⟩ | ⟨-, -, -, field⟩, -⟩ := x.fields_cases
      · omega
      · simp [lowest, fractionBits, field]
    · rw [← spread]
      simp [roundingRange, narrow]

theorem high_mul (x : Magnitude) (den : Nat) :
    x.roundingRange.high * den =
      4 * (x.significand * (den * 2 ^ x.scale)) + 2 * (den * 2 ^ x.scale) := by
  simp only [roundingRange, units]
  ring

/-- A fraction in the range is within half a spacing, and within a quarter of one below the lowest
number of a spacing. -/
theorem near_of_covers (covers : x.roundingRange.Covers (4 * num) den) (nonzero : x.code ≠ 0)
    {step : Nat} (spacing : den * 2 ^ x.scale = step) :
    2 * (x.significand * step) ≤ 2 * num + step ∧ 2 * num ≤ 2 * (x.significand * step) + step ∧
      (2 * (x.significand * step) = 2 * num + step ∨
        2 * num = 2 * (x.significand * step) + step → x.significand % 2 = 0) ∧
      (x.significand = 2 ^ 52 → 0 < x.scale → 4 * (x.significand * step) ≤ 4 * num + step) := by
  obtain ⟨k, gap, lowest, low⟩ := x.low_mul den
  have high := x.high_mul den
  have closed : x.roundingRange.closed = (x.significand % 2 == 0) := rfl
  have one : step ≤ x.significand * step := Nat.le_mul_of_pos_left step (significand_pos nonzero)
  rw [spacing] at low high
  unfold RoundingRange.Covers at covers
  rw [closed, low, high] at covers
  split at covers
  · rename_i even
    rw [beq_iff_eq] at even
    rcases gap with rfl | ⟨rfl, -⟩
    · exact ⟨by omega, by omega, fun _ => even, fun first second => by
        have narrow := lowest first second
        omega⟩
    · exact ⟨by omega, by omega, fun _ => even, fun _ _ => by omega⟩
  · rcases gap with rfl | ⟨rfl, -⟩
    · exact ⟨by omega, by omega, fun tie => by omega, fun first second => by
        have narrow := lowest first second
        omega⟩
    · exact ⟨by omega, by omega, fun tie => by omega, fun _ _ => by omega⟩

theorem log2_div {k : Nat} (positive : 0 < den) (low : 2 ^ k * den ≤ num)
    (high : num < 2 ^ (k + 1) * den) : Nat.log2 (num / den) = k := by
  have lower : 2 ^ k ≤ num / den := (Nat.le_div_iff_mul_le positive).mpr low
  have upper : num / den < 2 ^ (k + 1) := (Nat.div_lt_iff_lt_mul positive).mpr high
  have nonzero : num / den ≠ 0 := by
    have power := Nat.two_pow_pos k
    omega
  exact (Nat.log2_eq_iff nonzero).mpr ⟨lower, upper⟩

theorem ofUnits_own {step : Nat} (spacing : den * 2 ^ x.scale = step) (positive : 0 < den)
    (low : 2 * (x.significand * step) ≤ 2 * num + step)
    (high : 2 * num ≤ 2 * (x.significand * step) + step)
    (ties : 2 * (x.significand * step) = 2 * num + step ∨
      2 * num = 2 * (x.significand * step) + step → x.significand % 2 = 0)
    (full : x.scale = 0 ∨ 2 ^ 52 * step ≤ num) : ofUnits num den = x := by
  have stepPositive : 0 < step := spacing ▸ Nat.mul_pos positive (Nat.two_pow_pos _)
  obtain ⟨fields, code⟩ := x.fields_cases
  have bound := Nat.mul_le_mul_right step (show x.significand ≤ 2 ^ 53 - 1 by omega)
  have power (k : Nat) : 2 ^ (k + x.scale) * den = 2 ^ k * step := by
    rw [← spacing, Nat.pow_add]
    ring
  have upper : num < 2 ^ (53 + x.scale) * den := by
    rw [power 53]
    omega
  have shift : Nat.log2 (num / den) - fractionBits = x.scale := by
    unfold fractionBits
    rcases full with unscaled | full
    · rw [unscaled] at upper ⊢
      rcases Nat.eq_zero_or_pos (num / den) with zero | quotient
      · rw [zero]
        rfl
      · have small : num / den < 2 ^ 53 := (Nat.div_lt_iff_lt_mul positive).mpr upper
        have width := (Nat.log2_lt (by omega)).mpr small
        omega
    · have next : 52 + x.scale + 1 = 53 + x.scale := by omega
      rw [log2_div positive (power 52 ▸ full) (by rwa [next])]
      omega
  rw [ofUnits_eq]
  dsimp only
  rw [shift, spacing, roundEven_eq low high stepPositive ties, fractionBits, code, ofCode_code]

/-- Just below the lowest number of a spacing, where the spacing is half as wide. -/
theorem ofUnits_below {step : Nat} (spacing : den * 2 ^ x.scale = step) (positive : 0 < den)
    (scaled : 0 < x.scale) (lowest : x.significand = 2 ^ 52)
    (low : 4 * (x.significand * step) ≤ 4 * num + step) (below : num < 2 ^ 52 * step) :
    ofUnits num den = x := by
  obtain ⟨scale, next⟩ : ∃ k, x.scale = k + 1 := ⟨x.scale - 1, by omega⟩
  obtain ⟨half, halved⟩ : ∃ half, half = den * 2 ^ scale := ⟨_, rfl⟩
  have double : step = 2 * half := by
    rw [← spacing, next, halved, Nat.pow_succ]
    ring
  have halfPositive : 0 < half := halved ▸ Nat.mul_pos positive (Nat.two_pow_pos _)
  have code := x.fields_cases.2
  rw [lowest] at low code
  have power (k : Nat) : 2 ^ (k + scale) * den = 2 ^ k * half := by
    rw [halved, Nat.pow_add]
    ring
  have shift : Nat.log2 (num / den) - fractionBits = scale := by
    rw [log2_div positive (k := 52 + scale)]
    · unfold fractionBits
      omega
    · rw [power 52]
      omega
    · rw [show 52 + scale + 1 = 53 + scale by omega, power 53]
      omega
  have rounded : roundEven num half = 2 ^ 53 :=
    roundEven_eq (by omega) (by omega) halfPositive fun _ => by decide
  rw [ofUnits_eq]
  dsimp only
  rw [shift, ← halved, rounded]
  have same : scale * 2 ^ fractionBits + 2 ^ 53 = x.code := by
    rw [← code, next, show 2 ^ fractionBits = 2 ^ 52 from rfl]
    ring
  rw [same, ofCode_code]

theorem ofUnits_of_covers (covers : x.roundingRange.Covers (4 * num) den) (nonzero : x.code ≠ 0)
    (positive : 0 < den) : ofUnits num den = x := by
  obtain ⟨low, high, ties, narrow⟩ := near_of_covers covers nonzero rfl
  by_cases full : x.scale = 0 ∨ 2 ^ 52 * (den * 2 ^ x.scale) ≤ num
  · exact ofUnits_own rfl positive low high ties full
  · rw [not_or, Nat.not_le] at full
    obtain ⟨⟨unscaled, -⟩ | ⟨scaled, large, -⟩, -⟩ := x.fields_cases
    · exact absurd unscaled full.1
    · have lowest : x.significand = 2 ^ 52 := by
        refine Nat.le_antisymm (Nat.le_of_not_lt fun above => ?_) large
        have next : 2 ^ 52 + 1 ≤ x.significand := by omega
        have more := Nat.mul_le_mul_right (den * 2 ^ x.scale) next
        rw [Nat.add_mul] at more
        omega
      exact ofUnits_below rfl positive scaled lowest (narrow lowest scaled) full.2

end Magnitude

end SortTrace.Numeral
