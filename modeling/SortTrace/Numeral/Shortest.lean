import SortTrace.Numeral.Literal

/-!
The shortest decimal text of a number: the fewest digits that read back as the same number, the
nearest of those, written without an exponent.
-/

namespace SortTrace.Numeral

structure Decimal where
  digits : Nat
  exponent : Int
deriving DecidableEq

/-- The decimals that round to one number. Bounds and centre are counted in quarters of the
smallest positive number; `closed` says that the bounds belong to it. -/
structure RoundingRange where
  low : Nat
  centre : Nat
  high : Nat
  closed : Bool

/-- The range of a finite number. The gap below a power of two is half as wide as the gap above,
and ties go to the even significand. -/
def Magnitude.roundingRange (x : Magnitude) : RoundingRange :=
  let spacing := 2 ^ x.scale
  let centre := 4 * x.units
  let narrow := x.significand == 2 ^ fractionBits && 1 < x.exponentField
  { low := centre - if narrow then spacing else 2 * spacing
    centre := centre
    high := centre + 2 * spacing
    closed := x.significand % 2 == 0 }

def quartersPerOne : Nat := 2 ^ (unitBits + 2)

namespace RoundingRange

def quarters (d : Decimal) : Nat × Nat :=
  (d.digits * 10 ^ d.exponent.toNat * quartersPerOne, 10 ^ (-d.exponent).toNat)

def holds (r : RoundingRange) (d : Decimal) : Bool :=
  let (num, den) := quarters d
  let low := r.low * den
  let high := r.high * den
  if r.closed then low ≤ num && num ≤ high else low < num && num < high

/-- The decimal at or just below the centre among the multiples of `10 ^ exponent`. -/
def gridBelow (r : RoundingRange) (exponent : Int) : Decimal :=
  ⟨r.centre * 10 ^ (-exponent).toNat / (10 ^ exponent.toNat * quartersPerOne), exponent⟩

/-- The nearest multiple of `10 ^ exponent` in the range; a tie goes up. -/
def nearestOnGrid? (r : RoundingRange) (exponent : Int) : Option Decimal :=
  let below := r.gridBelow exponent
  let above : Decimal := ⟨below.digits + 1, exponent⟩
  match r.holds below, r.holds above with
  | true, true =>
    let (low, den) := quarters below
    let (high, _) := quarters above
    if 2 * r.centre * den < low + high then some below else some above
  | true, false => some below
  | false, true => some above
  | false, false => none

def leadingExponent (r : RoundingRange) : Int :=
  if quartersPerOne ≤ r.centre then
    (decimalLength (r.centre / quartersPerOne) : Int) - 1
  else
    let places := decimalLength (quartersPerOne / r.centre)
    if quartersPerOne ≤ r.centre * 10 ^ (places - 1) then 1 - places else -places

/-- Tries grids from `exponent` downwards, one more digit each time. -/
def search (r : RoundingRange) : Nat → Int → Decimal
  | 0, exponent => r.gridBelow exponent
  | tries + 1, exponent =>
    match r.nearestOnGrid? exponent with
    | some d => d
    | none => r.search tries (exponent - 1)

/-- Seventeen digits always suffice. -/
def shortest (r : RoundingRange) : Decimal := r.search 17 r.leadingExponent

end RoundingRange

def Decimal.trim (d : Decimal) : Decimal :=
  if d.digits % 10 == 0 then ⟨d.digits / 10, d.exponent + 1⟩ else d

/-- Positional notation, with neither an exponent nor a bare point. -/
def Decimal.positional (d : Decimal) : String :=
  let digits := Nat.toDigits 10 d.digits
  if 0 ≤ d.exponent then
    String.ofList (digits ++ List.replicate d.exponent.toNat '0')
  else
    let places := (-d.exponent).toNat
    let padded := List.replicate (places + 1 - digits.length) '0' ++ digits
    let whole := padded.length - places
    String.ofList (padded.take whole ++ '.' :: padded.drop whole)

/-- The shortest text that reads back, `inf` for infinity. -/
def Magnitude.text (x : Magnitude) : String :=
  if x.isInfinite then "inf"
  else if x.code == 0 then "0"
  else x.roundingRange.shortest.trim.positional

end SortTrace.Numeral
