import SortTrace.Proofs.Numeral.Positional
import SortTrace.Wire.Json

/-!
Strings and whole numbers in JSON texts: what is written is read back, whatever stands behind it, as
long as a number does not go on there.
-/

namespace SortTrace.Wire

open Numeral

theorem hexValue?_digitChar : ∀ d < 16, hexValue? (Nat.digitChar d) = some d := by decide

theorem unicodeEscape?_low {c : Char} (low : c.toNat < 0x20) (rest : List Char) :
    unicodeEscape? ('0' :: '0' :: Nat.digitChar (c.toNat / 16) :: Nat.digitChar (c.toNat % 16) :: rest) =
      some (c, rest) := by
  have zero : hexValue? '0' = some 0 := rfl
  have first := hexValue?_digitChar (c.toNat / 16) (by omega)
  have second := hexValue?_digitChar (c.toNat % 16) (by omega)
  have code : c.toNat / 16 * 16 + c.toNat % 16 = c.toNat := by omega
  have noHigh : ¬ 0xd800 ≤ c.toNat := by omega
  have noLow : ¬ 0xdc00 ≤ c.toNat := by omega
  simp [unicodeEscape?, hexUnit?, zero, first, second, code, noHigh, noLow]

theorem stringBody?_escapeChar (fuel : Nat) (c : Char) (rest : List Char) :
    stringBody? (fuel + 1) (escapeChar c ++ rest) =
      (stringBody? fuel rest).map fun content => (c :: content.1, content.2) := by
  have short {d : Char} (escaped : escape? (d :: rest) = some (c, rest)) :
      stringBody? (fuel + 1) ('\\' :: d :: rest) =
        (stringBody? fuel rest).map fun content => (c :: content.1, content.2) := by
    rw [stringBody?, if_neg (by decide), if_pos rfl, escaped]
    simp only [Option.bind_eq_bind, Option.bind_some]
    cases stringBody? fuel rest <;> rfl
  unfold escapeChar
  split
  · subst c; exact short rfl
  split
  · subst c; exact short rfl
  split
  · subst c; exact short rfl
  split
  · subst c; exact short rfl
  split
  · subst c; exact short rfl
  split
  · subst c; exact short rfl
  split
  · subst c; exact short rfl
  rename_i quote slash _ _ _ _ _
  split
  · rename_i low
    have escaped := unicodeEscape?_low low rest
    rw [List.cons_append, stringBody?, if_neg (by decide), if_pos rfl]
    simp only [List.cons_append, List.nil_append, escape?, escaped, Option.bind_eq_bind,
      Option.bind_some]
    cases stringBody? fuel rest <;> rfl
  · rename_i high
    rw [List.singleton_append, stringBody?, if_neg quote, if_neg slash, if_neg high]
    cases stringBody? fuel rest <;> rfl

theorem stringBody?_escaped {cs : List Char} {fuel : Nat} (enough : cs.length < fuel)
    (rest : List Char) :
    stringBody? fuel (cs.flatMap escapeChar ++ '\x22' :: rest) = some (cs, rest) := by
  induction cs generalizing fuel with
  | nil =>
    obtain ⟨fuel, rfl⟩ := Nat.exists_eq_add_of_lt enough
    rfl
  | cons c cs ih =>
    obtain ⟨fuel, rfl⟩ := Nat.exists_eq_add_one_of_ne_zero (show fuel ≠ 0 by omega)
    rw [List.flatMap_cons, List.append_assoc, stringBody?_escapeChar,
      ih (by simpa using enough)]
    rfl

theorem length_le_escaped (cs : List Char) : cs.length ≤ (cs.flatMap escapeChar).length := by
  induction cs with
  | nil => exact Nat.le_refl _
  | cons c cs ih =>
    have some : 1 ≤ (escapeChar c).length := by
      unfold escapeChar
      repeat' split
      all_goals simp
    rw [List.flatMap_cons, List.length_append, List.length_cons]
    omega

theorem string?_stringChars (s : String) (rest : List Char) :
    string? ((s.toList.flatMap escapeChar ++ ['\x22']) ++ rest) = some (s, rest) := by
  have longer := length_le_escaped s.toList
  rw [string?, List.append_assoc, List.singleton_append, stringBody?_escaped]
  · exact congrArg (fun s => some (s, rest)) String.ofList_toList
  · simp only [List.length_append, List.length_cons]
    omega

def NumberStops (rest : List Char) : Prop :=
  ∀ c, rest.head? = some c → c.isDigit = false ∧ c ≠ '.' ∧ c ≠ 'e' ∧ c ≠ 'E'

theorem NumberStops.nil : NumberStops [] := by
  intro c head
  cases head

theorem NumberStops.cons {c : Char} (digit : c.isDigit = false) (point : c ≠ '.') (lower : c ≠ 'e')
    (upper : c ≠ 'E') (rest : List Char) : NumberStops (c :: rest) := by
  intro d head
  cases head
  exact ⟨digit, point, lower, upper⟩

theorem head?_toDigits {n : Nat} (positive : 0 < n) : (Nat.toDigits 10 n).head? ≠ some '0' := by
  induction n using Nat.strongRecOn with
  | ind n ih =>
    rcases Nat.lt_or_ge n 10 with small | large
    · rw [Nat.toDigits_of_lt_base small]
      have nonzero : ∀ d < 10, 0 < d → [Nat.digitChar d].head? ≠ some '0' := by decide
      exact nonzero n small positive
    · have front := ih (n / 10) (by omega) (by omega)
      rw [Nat.toDigits_of_base_le (by omega) large]
      cases digits : Nat.toDigits 10 (n / 10) with
      | nil => exact absurd digits Nat.toDigits_ne_nil
      | cons d ds =>
        rw [digits] at front
        exact front

theorem wholeDigits?_toDigits (n : Nat) {rest : List Char} (stops : NumberStops rest) :
    wholeDigits? (Nat.toDigits 10 n ++ rest) = some (Nat.toDigits 10 n, rest) := by
  have ends : ∀ c, rest.head? = some c → c.isDigit = false := fun c head => (stops c head).1
  obtain ⟨taken, dropped⟩ := takeWhile_digits (@isDigit_toDigits n) ends
  unfold wholeDigits?
  split
  · rename_i c rest' shape
    rcases Nat.eq_zero_or_pos n with rfl | positive
    · rw [Nat.toDigits_zero, List.singleton_append] at shape
      cases shape
      rw [ends c rfl]
      rfl
    · have front := head?_toDigits positive
      cases digits : Nat.toDigits 10 n with
      | nil => exact absurd digits Nat.toDigits_ne_nil
      | cons d ds =>
        rw [digits, List.cons_append, List.cons.injEq] at shape
        rw [digits, shape.1] at front
        exact absurd rfl front
  · rw [taken, dropped]
    cases digits : Nat.toDigits 10 n with
    | nil => exact absurd digits Nat.toDigits_ne_nil
    | cons d ds => rfl

theorem fractionPart?_stops {rest : List Char} (stops : NumberStops rest) :
    fractionPart? rest = some ([], rest) := by
  rcases rest with _ | ⟨c, rest⟩
  · rfl
  · unfold fractionPart?
    split
    · rename_i shape
      cases shape
      exact absurd rfl (stops '.' rfl).2.1
    · rfl

theorem exponentPart?_stops {rest : List Char} (stops : NumberStops rest) :
    exponentPart? rest = some ([], rest) := by
  rcases rest with _ | ⟨c, rest⟩
  · rfl
  · obtain ⟨-, -, lower, upper⟩ := stops c rfl
    simp [exponentPart?, lower, upper]

theorem unsigned?_toDigits (negative : Bool) (n : Nat) {rest : List Char} (stops : NumberStops rest)
    (fits : if negative then 0 < n ∧ n ≤ 2 ^ 63 else n < 2 ^ 64) :
    unsigned? negative (Nat.toDigits 10 n ++ rest) =
      some (.int (if negative then -n else n), rest) := by
  have whole := wholeDigits?_toDigits n stops
  have fraction := fractionPart?_stops stops
  have exponent := exponentPart?_stops stops
  cases negative <;>
    simp_all [unsigned?, digitsValue_toDigits]

theorem number?_intChars {n : Int} (low : -2 ^ 63 ≤ n) (high : n < 2 ^ 64) {rest : List Char}
    (stops : NumberStops rest) : number? (intChars n ++ rest) = some (.int n, rest) := by
  cases n with
  | ofNat n =>
    have read := unsigned?_toDigits false n stops (Int.ofNat_lt.mp high)
    have plain : number? (Nat.toDigits 10 n ++ rest) =
        unsigned? false (Nat.toDigits 10 n ++ rest) := by
      unfold number?
      split
      · rename_i shape
        have digits := @isDigit_toDigits n
        cases spelled : Nat.toDigits 10 n with
        | nil => exact absurd spelled Nat.toDigits_ne_nil
        | cons d ds =>
          rw [spelled] at shape digits
          cases shape
          exact absurd (digits '-' (List.mem_cons_self ..)) (by decide)
      · rfl
    exact plain.trans read
  | negSucc n =>
    exact unsigned?_toDigits true (n + 1) stops ⟨Nat.succ_pos n, by omega⟩

end SortTrace.Wire
