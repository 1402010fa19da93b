import SortTrace.Numeral.Binary

/-!
Reading decimal text: digits, an optional fraction and an optional exponent, rounded correctly.
-/

namespace SortTrace.Numeral

def digitsValue (digits : List Char) : Nat :=
  digits.foldl (fun value c => 10 * value + (c.toNat - '0'.toNat)) 0

def decimalLength (n : Nat) : Nat := (Nat.toDigits 10 n).length

/-- Above this decimal length every number is infinite. -/
def maxDecimalLength : Int := 310

/-- Below this decimal length every number rounds to zero. -/
def minDecimalLength : Int := -330

/-- The number nearest to `digits · 10 ^ exponent`. Numbers far outside the range are settled from
their length alone, so a long exponent costs nothing. -/
def Magnitude.ofDecimal (digits : Nat) (exponent : Int) : Magnitude :=
  let length := decimalLength digits + exponent
  if digits = 0 || length < minDecimalLength then .zero
  else if maxDecimalLength < length then .infinity
  else .ofRatio (digits * 10 ^ exponent.toNat) (10 ^ (-exponent).toNat)

def exponentOfText? : List Char → Option Int
  | [] => some 0
  | mark :: rest =>
    let signed (negative : Bool) (digits : List Char) : Option Int :=
      if digits.isEmpty || !digits.all Char.isDigit then none
      else if negative then some (-(digitsValue digits : Int))
      else some (digitsValue digits)
    if mark = 'e' || mark = 'E' then
      match rest with
      | '+' :: digits => signed false digits
      | '-' :: digits => signed true digits
      | digits => signed false digits
    else none

/-- Reads digits with an optional fraction and exponent; at least one digit stands before the
exponent. -/
def Magnitude.ofText? (text : List Char) : Option Magnitude :=
  let whole := text.takeWhile Char.isDigit
  let afterWhole := text.dropWhile Char.isDigit
  let (fraction, rest) := match afterWhole with
    | '.' :: r => (r.takeWhile Char.isDigit, r.dropWhile Char.isDigit)
    | r => ([], r)
  if whole.isEmpty && fraction.isEmpty then none
  else (exponentOfText? rest).map fun exponent =>
    .ofDecimal (digitsValue (whole ++ fraction)) (exponent - fraction.length)

end SortTrace.Numeral
