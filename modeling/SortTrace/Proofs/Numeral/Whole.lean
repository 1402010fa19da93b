import SortTrace.Numeral.Literal

/-!
Whole numbers up to `2 ^ 53` are read exactly: a run of decimal digits stands for its value.
-/

namespace SortTrace.Numeral

namespace Magnitude

theorem log2_scaled {m : Nat} (low : 2 ^ 52 ≤ m) (high : m < 2 ^ 53) (shift : Nat) :
    Nat.log2 (m * 2 ^ shift) = 52 + shift := by
  have positive : 0 < 2 ^ shift := Nat.two_pow_pos shift
  rw [Nat.log2_eq_iff (Nat.mul_ne_zero (by omega) (by omega))]
  constructor
  · rw [Nat.pow_add]
    exact Nat.mul_le_mul_right _ low
  · rw [show 52 + shift + 1 = 53 + shift by omega, Nat.pow_add]
    exact Nat.mul_lt_mul_of_pos_right high positive

theorem ofUnits_scaled {m : Nat} (low : 2 ^ 52 ≤ m) (high : m < 2 ^ 53) (shift : Nat) :
    ofUnits (m * 2 ^ shift) 1 = ofCode (shift * 2 ^ 52 + m) := by
  have positive : 0 < 2 ^ shift := Nat.two_pow_pos shift
  have width : Nat.log2 (m * 2 ^ shift) - 52 = shift := by
    rw [log2_scaled low high]
    omega
  have quotient : m * 2 ^ shift / 2 ^ shift = m := Nat.mul_div_cancel m positive
  have remainder : m * 2 ^ shift % 2 ^ shift = 0 := Nat.mul_mod_left ..
  have other : ¬ 0 = 2 ^ shift := by omega
  simp only [ofUnits, fractionBits, Nat.div_one, Nat.one_mul, width, quotient, remainder]
  simp [other]

theorem units_ofUnits_scaled {m : Nat} (low : 2 ^ 52 ≤ m) (high : m < 2 ^ 53) {shift : Nat}
    (small : shift < 2045) : (ofUnits (m * 2 ^ shift) 1).units = m * 2 ^ shift := by
  have finite : min (shift * 2 ^ 52 + m) infinityCode = shift * 2 ^ 52 + m := by
    unfold infinityCode
    omega
  have field : (shift * 2 ^ 52 + m) / 2 ^ 52 = shift + 1 := by omega
  have stored : 2 ^ 52 + (shift * 2 ^ 52 + m) % 2 ^ 52 = m := by omega
  simp only [ofUnits_scaled low high, units, significand, scale, exponentField, ofCode, finite,
    fractionBits, field, stored]
  simp

theorem exists_scaled {n : Nat} (positive : 0 < n) (bound : n ≤ 2 ^ 53) :
    ∃ m shift, 2 ^ 52 ≤ m ∧ m < 2 ^ 53 ∧ shift < 2045 ∧ n * 2 ^ unitBits = m * 2 ^ shift := by
  by_cases largest : n = 2 ^ 53
  · have halves : 2 ^ 53 = 2 ^ 52 * 2 := by omega
    refine ⟨2 ^ 52, unitBits + 1, Nat.le_refl _, by omega, by decide, ?_⟩
    rw [largest, halves, Nat.pow_succ 2 unitBits, Nat.mul_assoc, Nat.mul_comm 2]
  · have width : n.log2 ≤ 52 := by
      have below : n.log2 < 53 := (Nat.log2_lt (by omega)).mpr (by omega)
      omega
    have exponents : 52 - n.log2 + (n.log2 + 1022) = unitBits := by
      unfold unitBits
      omega
    have powers : 2 ^ (52 - n.log2) * 2 ^ (n.log2 + 1022) = 2 ^ unitBits := by
      rw [← Nat.pow_add, exponents]
    refine ⟨n * 2 ^ (52 - n.log2), n.log2 + 1022, ?_, ?_, by omega, ?_⟩
    · have low := Nat.mul_le_mul_right (2 ^ (52 - n.log2)) (@Nat.log2_self_le n (by omega))
      rwa [← Nat.pow_add, show n.log2 + (52 - n.log2) = 52 by omega] at low
    · have high := Nat.mul_lt_mul_of_pos_right (@Nat.lt_log2_self n)
        (Nat.two_pow_pos (52 - n.log2))
      rwa [← Nat.pow_add, show n.log2 + 1 + (52 - n.log2) = 53 by omega] at high
    · rw [Nat.mul_assoc, powers]

def ofWhole (n : Nat) : Magnitude := ofDecimal n 0

theorem ofWhole_zero : ofWhole 0 = zero := rfl

theorem ofWhole_positive {n : Nat} (positive : 0 < n) (bound : n ≤ 2 ^ 53) :
    ofWhole n = ofUnits (n * 2 ^ unitBits) 1 := by
  have short : decimalLength n ≤ 16 :=
    (Nat.length_toDigits_le_iff (by omega) (by omega)).mpr (by omega)
  have nonzero : ¬ n = 0 := by omega
  have large : ¬ ((decimalLength n : Int) < minDecimalLength) := by
    unfold minDecimalLength
    omega
  have finite : ¬ maxDecimalLength < (decimalLength n : Int) := by
    unfold maxDecimalLength
    omega
  simp [ofWhole, ofDecimal, nonzero, large, finite, ofRatio]

theorem floor_ofWhole {n : Nat} (bound : n ≤ 2 ^ 53) : (ofWhole n).floor = n := by
  rcases Nat.eq_zero_or_pos n with rfl | positive
  · have units : zero.units = 0 := by decide
    rw [ofWhole_zero, floor, units, Nat.zero_div]
  · obtain ⟨m, shift, low, high, small, same⟩ := exists_scaled positive bound
    rw [ofWhole_positive positive bound, floor, same, units_ofUnits_scaled low high small, ← same]
    exact Nat.mul_div_cancel n (Nat.two_pow_pos unitBits)

theorem isInfinite_ofWhole {n : Nat} (bound : n ≤ 2 ^ 53) : (ofWhole n).isInfinite = false := by
  rcases Nat.eq_zero_or_pos n with rfl | positive
  · decide
  · obtain ⟨m, shift, low, high, small, same⟩ := exists_scaled positive bound
    have code : min (shift * 2 ^ 52 + m) infinityCode ≠ infinityCode := by
      unfold infinityCode
      omega
    rw [ofWhole_positive positive bound, same, ofUnits_scaled low high]
    simpa [isInfinite, ofCode] using code

end Magnitude

theorem Signed.toInt64_ofWhole (negative : Bool) {n : Nat} (bound : n ≤ 2 ^ 53) :
    (Signed.mk negative (.ofWhole n)).toInt64 = Int64.ofInt (if negative then -n else n) := by
  unfold toInt64
  simp only [Magnitude.isInfinite_ofWhole bound, Magnitude.floor_ofWhole bound]
  congr 1
  cases negative <;> simp <;> omega

theorem digitsValue_toDigits (n : Nat) : digitsValue (Nat.toDigits 10 n) = n := by
  rw [digitsValue, ← Nat.ofDigitChars_eq_foldl, Nat.ofDigitChars_ten_toDigits]

theorem Magnitude.ofText?_toDigits (n : Nat) :
    ofText? (Nat.toDigits 10 n) = some (ofWhole n) := by
  have digits : ∀ c ∈ Nat.toDigits 10 n, c.isDigit = true := fun c member =>
    Nat.isDigit_of_mem_toDigits (by omega) (by omega) member
  have whole : (Nat.toDigits 10 n).takeWhile Char.isDigit = Nat.toDigits 10 n := by
    have all := @List.takeWhile_append_of_pos _ Char.isDigit _ [] digits
    simpa using all
  have rest : (Nat.toDigits 10 n).dropWhile Char.isDigit = [] := by
    have all := @List.dropWhile_append_of_pos _ Char.isDigit _ [] digits
    simpa using all
  simp [ofText?, whole, rest, exponentOfText?, digitsValue_toDigits, ofWhole]

end SortTrace.Numeral
