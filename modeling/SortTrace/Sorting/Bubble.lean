import SortTrace.Trace.Recorder

/-!
Bubble sort: each pass walks over neighbours and leaves the largest remaining value at the end of
its range.
-/

namespace SortTrace.Sorting

def bubblePass (r : Recorder) (count : Nat) : Recorder :=
  (List.range count).foldl (fun r j => r.exchangeIf (fun x y => y < x) j (j + 1)) r

/-- Sorts by passes over shorter and shorter ranges. After a pass its last position is final. -/
def bubbleSort (r : Recorder) : Recorder :=
  let last := r.size - 1
  (List.range last).foldl (fun r i => ((bubblePass r (last - i)).sorted [last - i]).1) r

end SortTrace.Sorting
