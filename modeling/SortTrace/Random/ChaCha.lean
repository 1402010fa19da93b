/-!
The ChaCha stream with eight rounds: blocks of sixteen 32-bit words from a key and a block number.
-/

namespace SortTrace.Random

/-- Rotation to the left; the amount is below 32. -/
def rotateLeft (x : UInt32) (n : Nat) : UInt32 := x <<< n.toUInt32 ||| x >>> (32 - n).toUInt32

def rotateRight (x : UInt32) (n : Nat) : UInt32 := rotateLeft x ((32 - n) % 32)

def quarterRound (b : Vector UInt32 16) (i j k l : Fin 16) : Vector UInt32 16 :=
  let a := b[i] + b[j]
  let d := rotateLeft (b[l] ^^^ a) 16
  let c := b[k] + d
  let e := rotateLeft (b[j] ^^^ c) 12
  let a := a + e
  let d := rotateLeft (d ^^^ a) 8
  let c := c + d
  let e := rotateLeft (e ^^^ c) 7
  (((b.set i a).set j e).set k c).set l d

def doubleRound (b : Vector UInt32 16) : Vector UInt32 16 :=
  let b := quarterRound b 0 4 8 12
  let b := quarterRound b 1 5 9 13
  let b := quarterRound b 2 6 10 14
  let b := quarterRound b 3 7 11 15
  let b := quarterRound b 0 5 10 15
  let b := quarterRound b 1 6 11 12
  let b := quarterRound b 2 7 8 13
  quarterRound b 3 4 9 14

/-- The words of one block. The first row is the text "expand 32-byte k". -/
def block (key : Vector UInt32 8) (number : UInt64) : Vector UInt32 16 :=
  let start : Vector UInt32 16 :=
    #v[0x61707865, 0x3320646e, 0x79622d32, 0x6b206574,
       key[0], key[1], key[2], key[3], key[4], key[5], key[6], key[7],
       number.toUInt32, (number >>> 32).toUInt32, 0, 0]
  let mixed := doubleRound (doubleRound (doubleRound (doubleRound start)))
  start.zipWith (· + ·) mixed

def streamWord (key : Vector UInt32 8) (n : Nat) : UInt32 :=
  (block key (n / 16).toUInt64).get ⟨n % 16, Nat.mod_lt n (by decide)⟩

end SortTrace.Random
