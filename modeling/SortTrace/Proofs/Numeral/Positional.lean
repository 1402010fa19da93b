import SortTrace.Numeral.Shortest
import SortTrace.Proofs.Numeral.Whole

namespace SortTrace.Numeral

inductive IsPositional : List Char → Prop
  | whole {digits : List Char} : digits ≠ [] → (∀ c ∈ digits, c.isDigit = true) →
      IsPositional digits
  | fraction {digits places : List Char} : digits ≠ [] → (∀ c ∈ digits, c.isDigit = true) →
      places ≠ [] → (∀ c ∈ places, c.isDigit = true) → IsPositional (digits ++ '.' :: places)

theorem IsPositional.ne_nil {cs : List Char} (shape : IsPositional cs) : cs ≠ [] := by
  cases shape with
  | whole nonempty => exact nonempty
  | fraction => simp

theorem isDigit_toDigits {n : Nat} : ∀ c ∈ Nat.toDigits 10 n, c.isDigit = true := fun _ member =>
  Nat.isDigit_of_mem_toDigits (by omega) (by omega) member

theorem isDigit_zeros {k : Nat} : ∀ c ∈ List.replicate k '0', c.isDigit = true := by
  intro c member
  rw [List.eq_of_mem_replicate member]
  rfl

theorem isDigit_append {left right : List Char} (first : ∀ c ∈ left, c.isDigit = true)
    (second : ∀ c ∈ right, c.isDigit = true) : ∀ c ∈ left ++ right, c.isDigit = true :=
  List.forall_mem_append.mpr ⟨first, second⟩

theorem takeWhile_digits {digits rest : List Char} (all : ∀ c ∈ digits, c.isDigit = true)
    (ends : ∀ c, rest.head? = some c → c.isDigit = false) :
    (digits ++ rest).takeWhile Char.isDigit = digits ∧
      (digits ++ rest).dropWhile Char.isDigit = rest := by
  rw [List.takeWhile_append_of_pos all, List.dropWhile_append_of_pos all]
  rcases rest with _ | ⟨c, rest⟩
  · simp
  · simp [ends c rfl]

theorem digitsValue_trailing (digits : List Char) (k : Nat) :
    digitsValue (digits ++ List.replicate k '0') = digitsValue digits * 10 ^ k := by
  simp only [digitsValue, ← Nat.ofDigitChars_eq_foldl, Nat.ofDigitChars_append,
    Nat.ofDigitChars_replicate_zero]
  exact Nat.mul_comm ..

theorem digitsValue_leading (k : Nat) (digits : List Char) :
    digitsValue (List.replicate k '0' ++ digits) = digitsValue digits := by
  simp only [digitsValue, ← Nat.ofDigitChars_eq_foldl, Nat.ofDigitChars_append,
    Nat.ofDigitChars_replicate_zero, Nat.mul_zero]

namespace Magnitude

theorem ofText?_whole {digits : List Char} (nonempty : digits ≠ [])
    (all : ∀ c ∈ digits, c.isDigit = true) :
    ofText? digits = some (ofDecimal (digitsValue digits) 0) := by
  obtain ⟨taken, dropped⟩ := @takeWhile_digits digits [] all (by simp)
  rw [List.append_nil] at taken dropped
  simp [ofText?, taken, dropped, nonempty, exponentOfText?]

theorem ofText?_fraction {digits places : List Char} (nonempty : digits ≠ [])
    (all : ∀ c ∈ digits, c.isDigit = true) (allPlaces : ∀ c ∈ places, c.isDigit = true) :
    ofText? (digits ++ '.' :: places) =
      some (ofDecimal (digitsValue (digits ++ places)) (-places.length)) := by
  obtain ⟨taken, dropped⟩ := @takeWhile_digits digits ('.' :: places) all (by simp)
  obtain ⟨takenPlaces, droppedPlaces⟩ := @takeWhile_digits places [] allPlaces (by simp)
  rw [List.append_nil] at takenPlaces droppedPlaces
  simp [ofText?, taken, dropped, takenPlaces, droppedPlaces, nonempty, exponentOfText?]

end Magnitude

namespace Decimal

/-- The magnitude nearest to a decimal whose trailing zeros are written out. -/
def magnitude (d : Decimal) : Magnitude :=
  .ofDecimal (d.digits * 10 ^ d.exponent.toNat) (-(-d.exponent).toNat)

theorem positional_digits (d : Decimal) (whole : 0 ≤ d.exponent) :
    d.positional.toList = Nat.toDigits 10 d.digits ++ List.replicate d.exponent.toNat '0' := by
  rw [positional, if_pos whole, String.toList_ofList]

theorem positional_fraction (d : Decimal) (fraction : d.exponent < 0) :
    ∃ digits places, d.positional.toList = digits ++ '.' :: places ∧ digits ≠ [] ∧
      (∀ c ∈ digits, c.isDigit = true) ∧ (∀ c ∈ places, c.isDigit = true) ∧
      places.length = (-d.exponent).toNat ∧ digitsValue (digits ++ places) = d.digits := by
  let places := (-d.exponent).toNat
  let digits := Nat.toDigits 10 d.digits
  let padded := List.replicate (places + 1 - digits.length) '0' ++ digits
  have all : ∀ c ∈ padded, c.isDigit = true := isDigit_append isDigit_zeros isDigit_toDigits
  have long : places + 1 ≤ padded.length := by
    simp only [padded, List.length_append, List.length_replicate]
    omega
  have value : digitsValue padded = d.digits := by
    rw [digitsValue_leading, digitsValue_toDigits]
  refine ⟨padded.take (padded.length - places), padded.drop (padded.length - places), ?_, ?_,
    fun c member => all c (List.mem_of_mem_take member),
    fun c member => all c (List.mem_of_mem_drop member), ?_, ?_⟩
  · rw [positional, if_neg (by omega), String.toList_ofList]
  · intro empty
    have length := congrArg List.length empty
    rw [List.length_take, List.length_nil] at length
    omega
  · rw [List.length_drop]
    omega
  · rw [List.take_append_drop, value]

theorem positional_isPositional (d : Decimal) : IsPositional d.positional.toList := by
  rcases Int.lt_or_le d.exponent 0 with fraction | whole
  · obtain ⟨digits, places, text, nonempty, all, allPlaces, length, -⟩ :=
      d.positional_fraction fraction
    rw [text]
    refine .fraction nonempty all ?_ allPlaces
    rintro rfl
    rw [List.length_nil] at length
    omega
  · rw [d.positional_digits whole]
    exact .whole (by simp [Nat.toDigits_ne_nil]) (isDigit_append isDigit_toDigits isDigit_zeros)

theorem ofText?_positional (d : Decimal) :
    Magnitude.ofText? d.positional.toList = some d.magnitude := by
  unfold magnitude
  rcases Int.lt_or_le d.exponent 0 with fraction | whole
  · obtain ⟨digits, places, text, nonempty, all, allPlaces, length, value⟩ :=
      d.positional_fraction fraction
    have none : d.exponent.toNat = 0 := by omega
    rw [text, Magnitude.ofText?_fraction nonempty all allPlaces, value, length, none, Nat.pow_zero,
      Nat.mul_one]
  · have none : (-d.exponent).toNat = 0 := by omega
    rw [d.positional_digits whole, Magnitude.ofText?_whole (by simp [Nat.toDigits_ne_nil])
      (isDigit_append isDigit_toDigits isDigit_zeros), digitsValue_trailing, digitsValue_toDigits,
      none]
    rfl

end Decimal

end SortTrace.Numeral
