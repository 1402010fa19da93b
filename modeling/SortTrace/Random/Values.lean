import SortTrace.Random.ChaCha

/-!
Arrays of random values. A seed always gives the same array.
-/

namespace SortTrace.Random

def smallest : Int64 := 1

/-- The multiplier of the generator that spreads a seed over a key. -/
def seedMultiplier : UInt64 := 6364136223846793005

def seedIncrement : UInt64 := 11634580027462260723

/-- Key word from a generator state: its high bits, rotated by the highest five. -/
def keyWord (state : UInt64) : UInt32 :=
  let mixed := (((state >>> 18) ^^^ state) >>> 27).toUInt32
  rotateRight mixed (state >>> 59).toNat

def seedState (seed : UInt64) : Nat → UInt64
  | 0 => seed
  | n + 1 => seedState seed n * seedMultiplier + seedIncrement

def keyOfSeed (seed : UInt64) : Vector UInt32 8 :=
  Vector.ofFn fun i => keyWord (seedState seed (i.val + 1))

/-- The number of different values: 1 to 99. -/
def valueCount : Nat := 99

/-- Products whose low half is above this bound would favour some values and are passed over. -/
def acceptedLow : Nat := valueCount * 2 ^ 57 - 1

/-- The value that a 64-bit draw stands for, if the draw is accepted: the draw scaled to the number
of values. -/
def valueOfDraw? (draw : Nat) : Option Int64 :=
  let product := draw * valueCount
  if product % 2 ^ 64 ≤ acceptedLow then some (smallest + (product / 2 ^ 64).toInt64) else none

/-- Draw `n` of a stream: two words, the low one first. -/
def draw (word : Nat → UInt32) (n : Nat) : Nat :=
  (word (2 * n)).toNat + (word (2 * n + 1)).toNat * 2 ^ 32

def takeValues (word : Nat → UInt32) : (draws : Nat) → (count n : Nat) → Array Int64 → Array Int64
  | 0, _, _, taken => taken
  | _ + 1, 0, _, taken => taken
  | draws + 1, count + 1, n, taken =>
    match valueOfDraw? (draw word n) with
    | some value => takeValues word draws count (n + 1) (taken.push value)
    | none => takeValues word draws (count + 1) (n + 1) taken

/-- More draws than any array needs: three in four are accepted. -/
def maxDraws : Nat := 2 ^ 62

def values (length : Nat) (seed : UInt64) : List Int64 :=
  (takeValues (streamWord (keyOfSeed seed)) maxDraws length 0 #[]).toList

end SortTrace.Random
