import SortTrace.Numeral.Binary

namespace SortTrace.Numeral

/-- The 64-bit signed number nearest to a whole one. -/
structure Saturates (whole : Int) (v : Int64) : Prop where
  below : whole < -2 ^ 63 → v = Int64.minValue
  above : 2 ^ 63 ≤ whole → v = Int64.maxValue
  within : -2 ^ 63 ≤ whole → whole < 2 ^ 63 → v.toInt = whole

/-- The number cut off towards zero; infinity is beyond all whole numbers. -/
inductive Signed.Truncates (x : Signed) (v : Int64) : Prop
  | finite {n : Nat} : x.magnitude.isInfinite = false → n * 2 ^ unitBits ≤ x.magnitude.units →
      x.magnitude.units < (n + 1) * 2 ^ unitBits → Saturates (if x.negative then -n else n) v →
      Truncates x v
  | infinite : x.magnitude.isInfinite = true →
      v = (if x.negative then Int64.minValue else Int64.maxValue) → Truncates x v

theorem saturates_iff {whole : Int} {v : Int64} :
    Saturates whole v ↔ v = Int64.ofInt (max (-2 ^ 63) (min (2 ^ 63 - 1) whole)) := by
  constructor
  · rintro ⟨below, above, within⟩
    rcases Int.lt_or_le whole (-2 ^ 63) with low | low
    · rw [below low, show max (-2 ^ 63) (min (2 ^ 63 - 1) whole) = -2 ^ 63 by omega]
      rfl
    rcases Int.lt_or_le whole (2 ^ 63) with high | high
    · rw [show max (-2 ^ 63) (min (2 ^ 63 - 1) whole) = whole by omega, ← within low high,
        Int64.ofInt_toInt]
    · rw [above high, show max (-2 ^ 63) (min (2 ^ 63 - 1) whole) = 2 ^ 63 - 1 by omega]
      rfl
  · rintro rfl
    refine ⟨fun low => ?_, fun high => ?_, fun low high => ?_⟩
    · rw [show max (-2 ^ 63) (min (2 ^ 63 - 1) whole) = -2 ^ 63 by omega]
      rfl
    · rw [show max (-2 ^ 63) (min (2 ^ 63 - 1) whole) = 2 ^ 63 - 1 by omega]
      rfl
    · rw [show max (-2 ^ 63) (min (2 ^ 63 - 1) whole) = whole by omega]
      exact Int64.toInt_ofInt_of_le low high

theorem Signed.truncates_iff {x : Signed} {v : Int64} : x.Truncates v ↔ v = x.toInt64 := by
  have unit : 0 < 2 ^ unitBits := Nat.two_pow_pos unitBits
  constructor
  · rintro (⟨finite, low, high, value⟩ | ⟨infinite, value⟩)
    · rename_i n
      have whole : x.magnitude.floor = n := Nat.div_eq_of_lt_le low high
      rw [toInt64, finite, whole]
      exact saturates_iff.mp value
    · rw [value, toInt64, infinite]
      cases x.negative <;> rfl
  · rintro rfl
    cases range : x.magnitude.isInfinite with
    | false =>
      refine .finite (n := x.magnitude.floor) range (Nat.div_mul_le_self ..)
        ((Nat.div_lt_iff_lt_mul unit).mp (Nat.lt_succ_self _)) (saturates_iff.mpr ?_)
      simp [toInt64, range]
    | true =>
      refine .infinite range ?_
      rw [toInt64, range]
      cases x.negative <;> rfl

theorem Magnitude.units_eq_zero {x : Magnitude} : x.units = 0 ↔ x.code = 0 := by
  have power : 0 < 2 ^ x.scale := Nat.two_pow_pos x.scale
  have field : x.exponentField = 0 ↔ x.code < 2 ^ fractionBits :=
    Nat.div_eq_zero_iff_lt (Nat.two_pow_pos fractionBits)
  rw [units, Nat.mul_eq_zero, or_iff_left (Nat.ne_of_gt power), significand]
  split
  · rename_i subnormal
    rw [Nat.mod_eq_of_lt (field.mp subnormal)]
  · rename_i normal
    have large : ¬ x.code < 2 ^ fractionBits := mt field.mpr normal
    have leading : 0 < 2 ^ fractionBits := Nat.two_pow_pos fractionBits
    omega

/-- The number is whole and not below zero. -/
structure Signed.IsWhole (x : Signed) (n : Nat) : Prop where
  finite : x.magnitude.isInfinite = false
  units : x.magnitude.units = n * 2 ^ unitBits
  sign : x.negative = true → n = 0

theorem Signed.toIndex?_eq_some {x : Signed} {i : Nat} :
    x.toIndex? = some i ↔ ∃ n, x.IsWhole n ∧ i = min n (2 ^ 64 - 1) := by
  have unit : 0 < 2 ^ unitBits := Nat.two_pow_pos unitBits
  constructor
  · intro found
    unfold toIndex? at found
    split at found
    · rename_i index
      simp only [Magnitude.isIntegral, Bool.and_eq_true, Bool.not_eq_true', beq_iff_eq,
        Bool.or_eq_true] at index
      obtain ⟨⟨finite, whole⟩, sign⟩ := index
      have units : x.magnitude.units = x.magnitude.floor * 2 ^ unitBits :=
        (Nat.div_mul_cancel (Nat.dvd_of_mod_eq_zero whole)).symm
      refine ⟨x.magnitude.floor, ⟨finite, units, fun negative => ?_⟩, (Option.some.inj found).symm⟩
      have zero := Magnitude.units_eq_zero.mpr (sign.resolve_left (by simp [negative]))
      rw [Magnitude.floor, zero, Nat.zero_div]
    · cases found
  · rintro ⟨n, ⟨finite, units, sign⟩, rfl⟩
    have whole : x.magnitude.floor = n := by
      rw [Magnitude.floor, units, Nat.mul_div_cancel n unit]
    have integral : x.magnitude.isIntegral = true := by
      simp [Magnitude.isIntegral, finite, units]
    have positive : (!x.negative || x.magnitude.code == 0) = true := by
      cases negative : x.negative with
      | false => rfl
      | true =>
        rw [sign negative, Nat.zero_mul] at units
        simp [Magnitude.units_eq_zero.mp units]
    rw [toIndex?, integral, positive, whole]
    rfl

end SortTrace.Numeral
