import SortTrace.Proofs.Numeral.Positional
import SortTrace.Proofs.Numeral.Rounding

/-!
The text of a number is read back as that number. The search for the shortest decimal ends in the
rounding range of the number, because the grid of its seventeenth digit is finer than the range.
-/

namespace SortTrace.Numeral

namespace RoundingRange

variable {r : RoundingRange} {num den k : Nat} {d : Decimal} {exponent : Int}

theorem holds_iff : r.holds d = true ↔ r.Covers (quarters d).1 (quarters d).2 := by
  unfold holds Covers
  cases r.closed <;> simp

theorem covers_mul (positive : 0 < k) : r.Covers (k * num) (k * den) ↔ r.Covers num den := by
  have scaled (bound : Nat) : bound * (k * den) = k * (bound * den) := Nat.mul_left_comm ..
  simp only [Covers, scaled, Nat.mul_le_mul_left_iff positive, Nat.mul_lt_mul_left positive]

theorem trim_holds (holds : r.holds d = true) : r.holds d.trim = true := by
  rw [holds_iff] at holds ⊢
  unfold Decimal.trim
  split
  · rename_i zero
    have whole : d.digits = 10 * (d.digits / 10) := by
      rw [beq_iff_eq] at zero
      omega
    unfold quarters at holds ⊢
    dsimp only at holds ⊢
    rcases Int.lt_or_le d.exponent 0 with fraction | large
    · have places : (-d.exponent).toNat = (-(d.exponent + 1)).toNat + 1 := by omega
      have none : d.exponent.toNat = (d.exponent + 1).toNat := by omega
      rw [whole, places, none, Nat.pow_succ, Nat.mul_comm _ 10, Nat.mul_assoc, Nat.mul_assoc,
        covers_mul (by omega), ← Nat.mul_assoc] at holds
      exact holds
    · have places : (-d.exponent).toNat = (-(d.exponent + 1)).toNat := by omega
      have more : (d.exponent + 1).toNat = d.exponent.toNat + 1 := by omega
      rw [whole, places] at holds
      rw [more, Nat.pow_succ, Nat.mul_comm _ 10, ← Nat.mul_assoc, Nat.mul_comm _ 10]
      exact holds
  · exact holds

theorem nearestOnGrid?_holds (found : r.nearestOnGrid? exponent = some d) : r.holds d = true := by
  unfold nearestOnGrid? at found
  dsimp only at found
  split at found
  · rename_i below above
    split at found
    · rw [← Option.some.inj found]
      exact below
    · rw [← Option.some.inj found]
      exact above
  · rename_i below _
    rw [← Option.some.inj found]
    exact below
  · rename_i _ above
    rw [← Option.some.inj found]
    exact above
  · cases found

theorem nearestOnGrid?_eq_none (missed : r.nearestOnGrid? exponent = none) :
    r.holds (r.gridBelow exponent) = false ∧
      r.holds ⟨(r.gridBelow exponent).digits + 1, exponent⟩ = false := by
  unfold nearestOnGrid? at missed
  dsimp only at missed
  split at missed
  · split at missed <;> cases missed
  · cases missed
  · cases missed
  · rename_i below above
    exact ⟨below, above⟩

theorem search_holds (tries : Nat) (exponent : Int)
    (found : ∃ k : Nat, k < tries ∧ r.nearestOnGrid? (exponent - k) ≠ none) :
    r.holds (r.search tries exponent) = true := by
  induction tries generalizing exponent with
  | zero =>
    obtain ⟨k, impossible, -⟩ := found
    omega
  | succ tries ih =>
    unfold search
    split
    · exact nearestOnGrid?_holds ‹_›
    · rename_i missed
      refine ih (exponent - 1) ?_
      obtain ⟨k, below, found⟩ := found
      rcases k with _ | k
      · exact absurd missed (by simpa using found)
      · refine ⟨k, by omega, ?_⟩
        rwa [show exponent - 1 - (k : Int) = exponent - (k + 1 : Nat) by omega]

theorem grid_brackets (r : RoundingRange) (exponent : Int) :
    let grid := 10 ^ exponent.toNat * quartersPerOne
    let den := 10 ^ (-exponent).toNat
    let below := (r.gridBelow exponent).digits * grid
    quarters (r.gridBelow exponent) = (below, den) ∧
      quarters ⟨(r.gridBelow exponent).digits + 1, exponent⟩ = (below + grid, den) ∧
      below ≤ r.centre * den ∧ r.centre * den < below + grid := by
  have positive : 0 < 10 ^ exponent.toNat * quartersPerOne :=
    Nat.mul_pos (Nat.pow_pos (by omega)) (Nat.two_pow_pos _)
  refine ⟨?_, ?_, Nat.div_mul_le_self .., ?_⟩
  · simp only [quarters, gridBelow, Nat.mul_assoc]
  · simp only [quarters, gridBelow, Nat.mul_assoc, Nat.add_mul, Nat.one_mul]
  · have next := Nat.lt_mul_div_succ (r.centre * 10 ^ (-exponent).toNat) positive
    unfold gridBelow
    dsimp only
    generalize 10 ^ exponent.toNat * quartersPerOne = grid at next ⊢
    rwa [Nat.mul_add, Nat.mul_one, Nat.mul_comm grid] at next

/-- A grid that misses the range is at least as coarse as the range is wide. -/
theorem coarse_of_missed (missed : r.nearestOnGrid? exponent = none) (low : r.low < r.centre)
    (high : r.centre < r.high) :
    r.high * 10 ^ (-exponent).toNat ≤
      r.low * 10 ^ (-exponent).toNat + 10 ^ exponent.toNat * quartersPerOne := by
  obtain ⟨missBelow, missAbove⟩ := nearestOnGrid?_eq_none missed
  obtain ⟨below, above, before, behind⟩ := r.grid_brackets exponent
  have positive : 0 < 10 ^ (-exponent).toNat := Nat.pow_pos (by omega)
  have left := Nat.mul_lt_mul_of_pos_right low positive
  have right := Nat.mul_lt_mul_of_pos_right high positive
  rw [← Bool.not_eq_true, holds_iff, below] at missBelow
  rw [← Bool.not_eq_true, holds_iff, above] at missAbove
  unfold Covers at missBelow missAbove
  dsimp only at missBelow missAbove
  generalize 10 ^ exponent.toNat * quartersPerOne = grid at *
  generalize (r.gridBelow exponent).digits * grid = bottom at *
  by_cases closed : r.closed = true
  · rw [if_pos closed] at missBelow missAbove
    omega
  · rw [if_neg closed] at missBelow missAbove
    omega

end RoundingRange

theorem lt_pow_decimalLength (n : Nat) : n < 10 ^ decimalLength n :=
  (Nat.length_toDigits_le_iff (by omega) (List.length_pos_iff.mpr Nat.toDigits_ne_nil)).mp
    (Nat.le_refl _)

theorem pow_decimalLength_le {n : Nat} (positive : 0 < n) : 10 ^ (decimalLength n - 1) ≤ n := by
  rcases Nat.eq_zero_or_pos (decimalLength n - 1) with single | several
  · rw [single]
    exact positive
  · refine Nat.le_of_not_lt fun below => ?_
    have shorter := (Nat.length_toDigits_le_iff (by omega) several).mpr below
    have same : decimalLength n = (Nat.toDigits 10 n).length := rfl
    omega

namespace RoundingRange

theorem leadingExponent_le (r : RoundingRange) (positive : 0 < r.centre) :
    10 ^ r.leadingExponent.toNat * quartersPerOne ≤
      r.centre * 10 ^ (-r.leadingExponent).toNat := by
  have one : 0 < quartersPerOne := Nat.two_pow_pos _
  unfold leadingExponent
  split
  · rename_i large
    have quotient : 0 < r.centre / quartersPerOne := Nat.div_pos large one
    have exponent : ((decimalLength (r.centre / quartersPerOne) : Int) - 1).toNat =
        decimalLength (r.centre / quartersPerOne) - 1 := by omega
    have none : (-((decimalLength (r.centre / quartersPerOne) : Int) - 1)).toNat = 0 := by
      have length : 0 < decimalLength (r.centre / quartersPerOne) :=
        List.length_pos_iff.mpr Nat.toDigits_ne_nil
      omega
    rw [exponent, none, Nat.pow_zero, Nat.mul_one]
    exact (Nat.le_div_iff_mul_le one).mp (pow_decimalLength_le quotient)
  · dsimp only
    split
    · rename_i _ enough
      have none : (1 - (decimalLength (quartersPerOne / r.centre) : Int)).toNat = 0 := by
        have length : 0 < decimalLength (quartersPerOne / r.centre) :=
          List.length_pos_iff.mpr Nat.toDigits_ne_nil
        omega
      have places : (-(1 - (decimalLength (quartersPerOne / r.centre) : Int))).toNat =
          decimalLength (quartersPerOne / r.centre) - 1 := by omega
      rw [none, places, Nat.pow_zero, Nat.one_mul]
      exact enough
    · have none : (-(decimalLength (quartersPerOne / r.centre) : Int)).toNat = 0 := by omega
      have places : (- -(decimalLength (quartersPerOne / r.centre) : Int)).toNat =
          decimalLength (quartersPerOne / r.centre) := by omega
      have below := (Nat.div_lt_iff_lt_mul positive).mp
        (lt_pow_decimalLength (quartersPerOne / r.centre))
      rw [none, places, Nat.pow_zero, Nat.one_mul, Nat.mul_comm]
      exact Nat.le_of_lt below

end RoundingRange

namespace Magnitude

variable {x : Magnitude} {d : Decimal}

theorem centre_mul (x : Magnitude) (den : Nat) :
    x.roundingRange.centre * den = 4 * (x.significand * (den * 2 ^ x.scale)) := by
  simp only [roundingRange, units]
  ring

theorem centre_inside (nonzero : x.code ≠ 0) :
    0 < x.roundingRange.low ∧ x.roundingRange.low < x.roundingRange.centre ∧
      x.roundingRange.centre < x.roundingRange.high := by
  obtain ⟨k, gap, -, low⟩ := x.low_mul 1
  have centre := x.centre_mul 1
  have high := x.high_mul 1
  have step : 0 < 1 * 2 ^ x.scale := Nat.mul_pos (by omega) (Nat.two_pow_pos _)
  have one := Nat.le_mul_of_pos_left (1 * 2 ^ x.scale) (significand_pos nonzero)
  rw [Nat.mul_one] at low centre high
  generalize 1 * 2 ^ x.scale = step at *
  rcases gap with rfl | ⟨rfl, -⟩ <;> omega

/-- The grid of the seventeenth digit does not miss the range: a significand is less than
`2 ^ 53`, which is less than `10 ^ 16`. -/
theorem seventeenth_digit (nonzero : x.code ≠ 0) :
    x.roundingRange.nearestOnGrid? (x.roundingRange.leadingExponent - 16) ≠ none := by
  intro missed
  obtain ⟨positive, low, high⟩ := centre_inside nonzero
  have coarse := RoundingRange.coarse_of_missed missed low high
  have leading := x.roundingRange.leadingExponent_le (by omega)
  generalize x.roundingRange.leadingExponent = exponent at coarse leading
  obtain ⟨den, denominator⟩ : ∃ den, den = 10 ^ (-(exponent - 16)).toNat := ⟨_, rfl⟩
  obtain ⟨grid, spacing⟩ : ∃ grid, grid = 10 ^ (exponent - 16).toNat * quartersPerOne := ⟨_, rfl⟩
  -- The range is narrower than the grid, and the grid is at most the 10 ^ 16th part of the centre.
  have fine : 10 ^ 16 * grid ≤ x.roundingRange.centre * den := by
    have exponents : 16 + (exponent - 16).toNat + (-exponent).toNat =
        exponent.toNat + (-(exponent - 16)).toNat := by omega
    have powers : 10 ^ 16 * 10 ^ (exponent - 16).toNat * 10 ^ (-exponent).toNat =
        10 ^ exponent.toNat * den := by
      rw [denominator, ← Nat.pow_add, ← Nat.pow_add, ← Nat.pow_add, exponents]
    have scaled := Nat.mul_le_mul_right den leading
    refine Nat.le_of_mul_le_mul_right ?_ (Nat.pow_pos (n := (-exponent).toNat) (by omega : 0 < 10))
    calc 10 ^ 16 * grid * 10 ^ (-exponent).toNat
        = 10 ^ 16 * 10 ^ (exponent - 16).toNat * 10 ^ (-exponent).toNat * quartersPerOne := by
          rw [spacing]
          ring
      _ = 10 ^ exponent.toNat * quartersPerOne * den := by
          rw [powers]
          ring
      _ ≤ x.roundingRange.centre * 10 ^ (-exponent).toNat * den := scaled
      _ = x.roundingRange.centre * den * 10 ^ (-exponent).toNat := by ring
  rw [← denominator, ← spacing] at coarse
  obtain ⟨k, gap, -, lowScaled⟩ := x.low_mul den
  rw [x.high_mul den, lowScaled] at coarse
  rw [x.centre_mul den] at fine
  have step : 0 < den * 2 ^ x.scale :=
    Nat.mul_pos (denominator ▸ Nat.pow_pos (by omega)) (Nat.two_pow_pos _)
  have one := Nat.le_mul_of_pos_left (den * 2 ^ x.scale) (significand_pos nonzero)
  obtain ⟨fields, -⟩ := x.fields_cases
  have bound := Nat.mul_le_mul_right (den * 2 ^ x.scale)
    (show x.significand ≤ 2 ^ 53 - 1 by omega)
  generalize den * 2 ^ x.scale = spacing at *
  rcases gap with rfl | ⟨rfl, lowest⟩
  · omega
  · rw [lowest] at coarse fine
    omega

theorem shortest_holds (nonzero : x.code ≠ 0) :
    x.roundingRange.holds x.roundingRange.shortest = true :=
  RoundingRange.search_holds 17 _ ⟨16, by omega, seventeenth_digit nonzero⟩

theorem scale_le (finite : x.isInfinite = false) : x.scale ≤ 2045 := by
  have code := x.code_le
  have below : x.code ≠ infinityCode := by
    rintro same
    simp [isInfinite, same] at finite
  simp only [scale, exponentField, fractionBits]
  unfold infinityCode at code below
  omega

theorem high_lt {largest : Nat} (bounded : x.scale ≤ largest) :
    x.roundingRange.high < 2 ^ 56 * 2 ^ largest := by
  obtain ⟨fields, -⟩ := x.fields_cases
  have high := x.high_mul 1
  rw [Nat.mul_one, Nat.one_mul] at high
  have spacing : 2 ^ x.scale ≤ 2 ^ largest := Nat.pow_le_pow_right (by omega) bounded
  have positive : 0 < 2 ^ x.scale := Nat.two_pow_pos _
  have bound := Nat.mul_le_mul_right (2 ^ x.scale) (show x.significand ≤ 2 ^ 53 - 1 by omega)
  omega

theorem ofDecimal_of_covers {n places : Nat} (finite : x.isInfinite = false) (nonzero : x.code ≠ 0)
    (covers : x.roundingRange.Covers (n * quartersPerOne) (10 ^ places)) :
    ofDecimal n (-places) = x := by
  obtain ⟨positive, -, -⟩ := centre_inside nonzero
  have high := high_lt (scale_le finite)
  have bounds : x.roundingRange.low * 10 ^ places ≤ n * quartersPerOne ∧
      n * quartersPerOne ≤ x.roundingRange.high * 10 ^ places := by
    unfold RoundingRange.Covers at covers
    split at covers
    · exact covers
    · exact ⟨Nat.le_of_lt covers.1, Nat.le_of_lt covers.2⟩
  have den : 0 < 10 ^ places := Nat.pow_pos (by omega)
  have digits : n ≠ 0 := by
    rintro rfl
    have low := Nat.mul_pos positive den
    omega
  have tight := pow_decimalLength_le (Nat.pos_of_ne_zero digits)
  have loose := lt_pow_decimalLength n
  -- Reading settles very small and very large decimals by their length, without rounding them;
  -- neither limit is reached inside a range.
  have large : ¬ ((decimalLength n : Int) + -(places : Int) < minDecimalLength) := by
    intro small
    unfold minDecimalLength at small
    have power : 10 ^ decimalLength n * 10 ^ 330 ≤ 10 ^ places :=
      calc
        10 ^ decimalLength n * 10 ^ 330 = 10 ^ (decimalLength n + 330) := (Nat.pow_add ..).symm
        _ ≤ 10 ^ places := Nat.pow_le_pow_right (by omega) (by omega)
    have limit : quartersPerOne < 10 ^ 330 := by decide +kernel
    have one := Nat.le_mul_of_pos_left (10 ^ places) positive
    have more := Nat.mul_lt_mul_of_lt_of_lt loose limit
    omega
  have small : ¬ maxDecimalLength < (decimalLength n : Int) + -(places : Int) := by
    intro large
    unfold maxDecimalLength at large
    have power : 10 ^ places * 10 ^ 310 ≤ 10 ^ (decimalLength n - 1) :=
      calc
        10 ^ places * 10 ^ 310 = 10 ^ (places + 310) := (Nat.pow_add ..).symm
        _ ≤ 10 ^ (decimalLength n - 1) := Nat.pow_le_pow_right (by omega) (by omega)
    have limit : 2 ^ 56 * 2 ^ 2045 ≤ 10 ^ 310 * quartersPerOne := by decide +kernel
    have less := Nat.mul_lt_mul_of_pos_right (Nat.lt_of_lt_of_le high limit) den
    have more := Nat.mul_le_mul_right quartersPerOne (Nat.le_trans power tight)
    rw [Nat.mul_assoc, Nat.mul_comm] at more
    omega
  have settled : ¬ (decide (n = 0) ||
      decide ((decimalLength n : Int) + -(places : Int) < minDecimalLength)) = true := by
    simp [digits, large]
  have none : (-(places : Int)).toNat = 0 := by omega
  have all : (- -(places : Int)).toNat = places := by omega
  unfold ofDecimal
  dsimp only
  rw [if_neg settled, if_neg small, none, all, Nat.pow_zero, Nat.mul_one, ofRatio]
  refine ofUnits_of_covers ?_ nonzero den
  have quarters : n * quartersPerOne = 4 * (n * 2 ^ unitBits) := by
    rw [quartersPerOne, Nat.pow_add]
    ring
  rwa [← quarters]

theorem magnitude_of_holds (finite : x.isInfinite = false) (nonzero : x.code ≠ 0)
    (holds : x.roundingRange.holds d = true) : d.magnitude = x := by
  rw [RoundingRange.holds_iff] at holds
  exact ofDecimal_of_covers finite nonzero holds

theorem text_finite (finite : x.isInfinite = false) :
    IsPositional x.text.toList ∧ ofText? x.text.toList = some x := by
  unfold text
  rw [if_neg (by simp [finite])]
  split
  · rename_i zero
    rw [beq_iff_eq] at zero
    have same : x = Magnitude.zero := by
      rw [← ofCode_code x, zero]
      rfl
    have digit : ∀ c ∈ ['0'], c.isDigit = true := by simp
    rw [same]
    exact ⟨.whole (List.cons_ne_nil '0' []) digit, rfl⟩
  · rename_i nonzero
    rw [beq_iff_eq] at nonzero
    refine ⟨Decimal.positional_isPositional _, ?_⟩
    rw [Decimal.ofText?_positional, magnitude_of_holds finite nonzero
      (RoundingRange.trim_holds (shortest_holds nonzero))]

end Magnitude

end SortTrace.Numeral
