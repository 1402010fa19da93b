/-!
Binary64 numbers without their sign, and the exact rounding of a fraction to the nearest of them.
All arithmetic is on natural numbers: a finite number is a whole multiple of the smallest positive
one.
-/

-- Powers are the built-in ones in every module, whatever else it imports.
attribute [default_instance (high + 1), instance (high)] instPowNat

namespace SortTrace.Numeral

/-- The order code of infinity. Every finite number has a smaller one. -/
def infinityCode : Nat := 0x7ff0000000000000

def fractionBits : Nat := 52

/-- The smallest positive number divides one this many times, as a power of two. -/
def unitBits : Nat := 1074

/-- A binary64 number without its sign, given by its place in the order: zero has code 0, and the
next number up has the next code. The code is also the bit pattern. -/
structure Magnitude where
  code : Nat
  code_le : code ≤ infinityCode
deriving DecidableEq

namespace Magnitude

/-- The number at a place in the order; places past the end are infinity. -/
def ofCode (code : Nat) : Magnitude :=
  ⟨min code infinityCode, Nat.min_le_right ..⟩

def zero : Magnitude := ofCode 0

def infinity : Magnitude := ofCode infinityCode

def isInfinite (x : Magnitude) : Bool := x.code == infinityCode

/-- The exponent field: 0 for zero and the subnormal numbers. -/
def exponentField (x : Magnitude) : Nat := x.code / 2 ^ fractionBits

/-- The integer significand, with the leading bit of a normal number put back. -/
def significand (x : Magnitude) : Nat :=
  if x.exponentField = 0 then x.code % 2 ^ fractionBits
  else 2 ^ fractionBits + x.code % 2 ^ fractionBits

def scale (x : Magnitude) : Nat := x.exponentField - 1

/-- A finite number as a multiple of the smallest positive one. -/
def units (x : Magnitude) : Nat := x.significand * 2 ^ x.scale

/-- The number nearest to `num / den` units; of two equally near ones, the one with the even
significand. Rounding up past a power of two moves to the next exponent by itself, because codes
are consecutive there. -/
def ofUnits (num den : Nat) : Magnitude :=
  let shift := Nat.log2 (num / den) - fractionBits
  let step := den * 2 ^ shift
  let below := num / step
  let twice := 2 * (num % step)
  let nearest := if step < twice || (twice == step && below % 2 == 1) then below + 1 else below
  ofCode (shift * 2 ^ fractionBits + nearest)

def ofRatio (num den : Nat) : Magnitude := ofUnits (num * 2 ^ unitBits) den

def floor (x : Magnitude) : Nat := x.units / 2 ^ unitBits

def isIntegral (x : Magnitude) : Bool :=
  !x.isInfinite && x.units % 2 ^ unitBits == 0

end Magnitude

/-- A magnitude with a sign; zero has two signs. -/
structure Signed where
  negative : Bool
  magnitude : Magnitude
deriving DecidableEq

namespace Signed

def bits (x : Signed) : Nat :=
  x.magnitude.code + if x.negative then 2 ^ 63 else 0

/-- The whole part, clamped to the range of 64-bit signed integers. -/
def toInt64 (x : Signed) : Int64 :=
  let whole : Int :=
    if x.magnitude.isInfinite then 2 ^ 63 else x.magnitude.floor
  Int64.ofInt (max (-2 ^ 63) (min (2 ^ 63 - 1) (if x.negative then -whole else whole)))

/-- The number as an array index, clamped to 64 bits: it must be integral and not below zero. Both
zeros are index 0. -/
def toIndex? (x : Signed) : Option Nat :=
  if x.magnitude.isIntegral && (!x.negative || x.magnitude.code == 0) then
    some (min x.magnitude.floor (2 ^ 64 - 1))
  else
    none

end Signed

end SortTrace.Numeral
