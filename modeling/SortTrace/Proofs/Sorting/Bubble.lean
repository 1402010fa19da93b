import SortTrace.Proofs.Sorting.Sweep
import SortTrace.Sorting.Bubble

/-!
Bubble sort is correct: it sorts by sweeps in which the values themselves are their ranks.
-/

namespace SortTrace.Sorting

open Recorder

theorem bubbleSort_eq (r : Recorder) :
    bubbleSort r = sweeps (fun _ r => r) Relation.gt.holds r (r.size - 1) (r.size - 1) := rfl

theorem bubbleSort_sorts (values : List Int64) (r : Recorder) (state : Rearranges values r) :
    Rearranges values (bubbleSort r) ∧ (bubbleSort r).array.Pairwise (· ≤ ·) := by
  obtain ⟨rearranged, ascending⟩ := sweeps_sort (fun _ _ => .inl rfl) Relation.ascends_gt state rfl
  rw [bubbleSort_eq]
  refine ⟨rearranged, pairwise_of_valueAt _ fun p q below inArray => ?_⟩
  rw [rearranged.length_eq] at inArray
  exact ascending p q below inArray

end SortTrace.Sorting
