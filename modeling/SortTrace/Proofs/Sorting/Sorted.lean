import SortTrace.Proofs.Sorting.Bubble
import SortTrace.Proofs.Sorting.Insertion
import SortTrace.Proofs.Sorting.Selection
import SortTrace.Sorting.Algorithm

/-!
The traces of the sorting algorithms: they open with the given values, pass validation, and replay to
the same values in ascending order.
-/

namespace SortTrace.Sorting

open Recorder

theorem Algorithm.sort_sorts (a : Algorithm) (values : List Int64) (r : Recorder)
    (state : Rearranges values r) :
    Rearranges values (a.sort r) ∧ (a.sort r).array.Pairwise (· ≤ ·) := by
  cases a with
  | bubble => exact bubbleSort_sorts values r state
  | selection => exact selectionSort_sorts values r state
  | insertion => exact insertionSort_sorts values r state

theorem Algorithm.trace_sorts (a : Algorithm) (values : List Int64) :
    (a.trace values).events.head? = some (.init values) ∧
    Trace.ofEvents (a.trace values).events = .ok (a.trace values) ∧
    ∃ sorted, (a.trace values).replay = .ok sorted ∧ sorted.Perm values ∧
      sorted.Pairwise (· ≤ ·) := by
  obtain ⟨⟨⟨inner, faithful⟩, perm⟩, ascending⟩ :=
    a.sort_sorts values (.start values) (Rearranges.start values)
  refine ⟨?_, faithful.accepted, (a.sort (.start values)).array, faithful.replay_eq, perm, ascending⟩
  have same : a.trace values = ⟨framed values inner⟩ := faithful.finish_eq
  rw [same]
  rfl

end SortTrace.Sorting
