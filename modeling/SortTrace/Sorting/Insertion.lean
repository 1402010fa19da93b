import SortTrace.Trace.Recorder

/-!
Insertion sort: each value moves to the left, one exchange at a time, until its left neighbour is
not larger.
-/

namespace SortTrace.Sorting

def sinkLeft (r : Recorder) : Nat → Recorder × Nat
  | 0 => (r, 0)
  | j + 1 =>
    match r.compare j (j + 1) with
    | (r, some (left, key)) => if key < left then sinkLeft (r.swap j (j + 1)).1 j else (r, j + 1)
    | (r, none) => (r, j + 1)

def insertionPass (r : Recorder) (i : Nat) : Recorder :=
  let (r, rest) := sinkLeft (r.highlight [i] .key).1 i
  (r.sorted [rest]).1

def insertionSort (r : Recorder) : Recorder :=
  (List.range' 1 (r.size - 1)).foldl insertionPass r

end SortTrace.Sorting
