import SortTrace.Trace.Recorder

/-!
Selection sort: each pass looks for the smallest remaining value and brings it to the front of its
range.
-/

namespace SortTrace.Sorting

/-- Compares the best position so far with another one and keeps the better; the first of two equal
ones stays. -/
def challenge : Recorder × Nat → Nat → Recorder × Nat
  | (r, best), j =>
    match r.compare best j with
    | (r, some (current, value)) => (r, if value < current then j else best)
    | (r, none) => (r, best)

def selectFrom (r : Recorder) (i : Nat) : Recorder × Nat :=
  (List.range' (i + 1) (r.size - (i + 1))).foldl challenge (r, i)

def selectionPass (r : Recorder) (i : Nat) : Recorder :=
  let (r, best) := selectFrom (r.highlight [i] .candidate).1 i
  let r := if best = i then r else (r.swap i best).1
  (r.sorted [i]).1

def selectionSort (r : Recorder) : Recorder :=
  (List.range (r.size - 1)).foldl selectionPass r

end SortTrace.Sorting
