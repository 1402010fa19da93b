import SortTrace.Proofs.Sorting.Rearrangement
import SortTrace.Sorting.Insertion

/-!
Insertion sort is correct: while a value sinks to the left, the values before and behind it stay in
order among themselves, and those behind it are not smaller than it.
-/

namespace SortTrace.Sorting

open Recorder

/-- The values up to a position are in order, but for the one at `hole`, which may be smaller than
those before it. -/
def OrderedBut (array : List Int64) (last hole : Nat) : Prop :=
  ∀ p q, p < q → q ≤ last → q ≠ hole → valueAt array p ≤ valueAt array q

def OrderedUpTo (array : List Int64) (count : Nat) : Prop :=
  ∀ p q, p < q → q < count → valueAt array p ≤ valueAt array q

theorem OrderedBut.exchange_previous {array : List Int64} {last j : Nat}
    (ordered : OrderedBut array last (j + 1)) (hole : j + 1 ≤ last) (bound : last < array.length)
    (smaller : valueAt array (j + 1) < valueAt array j) :
    OrderedBut (exchange array j (j + 1)) last j := by
  have boundJ : j < array.length := by omega
  have boundNext : j + 1 < array.length := by omega
  intro p q below upTo notHole
  by_cases atNext : q = j + 1
  · rw [atNext, valueAt_exchange_second array j (j + 1) boundJ boundNext]
    by_cases atJ : p = j
    · rw [atJ, valueAt_exchange_first array j (j + 1) boundJ boundNext]
      exact Int.le_of_lt smaller
    · rw [valueAt_exchange_other array j (j + 1) p boundJ boundNext atJ (by omega)]
      exact ordered p j (by omega) (by omega) (by omega)
  · rw [valueAt_exchange_other array j (j + 1) q boundJ boundNext notHole atNext]
    by_cases atJ : p = j
    · rw [atJ, valueAt_exchange_first array j (j + 1) boundJ boundNext]
      exact ordered (j + 1) q (by omega) upTo atNext
    by_cases pAtNext : p = j + 1
    · rw [pAtNext, valueAt_exchange_second array j (j + 1) boundJ boundNext]
      exact ordered j q (by omega) upTo atNext
    · rw [valueAt_exchange_other array j (j + 1) p boundJ boundNext atJ pAtNext]
      exact ordered p q below upTo atNext

theorem OrderedBut.fill {array : List Int64} {last j : Nat}
    (ordered : OrderedBut array last (j + 1)) (hole : j + 1 ≤ last)
    (notSmaller : valueAt array j ≤ valueAt array (j + 1)) : OrderedUpTo array (last + 1) := by
  intro p q below upTo
  by_cases atHole : q = j + 1
  · rw [atHole]
    by_cases atJ : p = j
    · rw [atJ]
      exact notSmaller
    · exact Int.le_trans (ordered p j (by omega) (by omega) (by omega)) notSmaller
  · exact ordered p q below (by omega) atHole

theorem sinkLeft_orders (values : List Int64) (r : Recorder) (last hole : Nat)
    (state : Rearranges values r) (bound : last < values.length) (range : hole ≤ last)
    (ordered : OrderedBut r.array last hole) :
    Rearranges values (sinkLeft r hole).1 ∧ OrderedUpTo (sinkLeft r hole).1.array (last + 1) := by
  induction hole generalizing r with
  | zero => exact ⟨state, fun p q below upTo => ordered p q below (by omega) (by omega)⟩
  | succ j ih =>
    have size := state.size_eq
    have length := state.length_eq
    obtain ⟨x, y, atJ, atNext, looked⟩ := r.compare_inside j (j + 1) (by omega) (by omega)
    have left := valueAt_of_getElem? r.array j x atJ
    have key := valueAt_of_getElem? r.array (j + 1) y atNext
    have compared := state.compare j (j + 1)
    have same := r.compare_array j (j + 1)
    rw [looked] at compared same
    simp only [sinkLeft, looked]
    by_cases smaller : y < x
    · rw [if_pos smaller]
      have lower : valueAt r.array (j + 1) < valueAt r.array j := by
        rw [left, key]
        exact Int64.lt_iff_toInt_lt.mp smaller
      apply ih _ (compared.swap j (j + 1)) (by omega)
      rw [swap_array, same]
      exact ordered.exchange_previous range (by omega) lower
    · rw [if_neg smaller]
      have higher : valueAt r.array j ≤ valueAt r.array (j + 1) := by
        rw [left, key]
        exact Int64.le_iff_toInt_le.mp (Int64.not_lt.mp smaller)
      refine ⟨compared, ?_⟩
      rw [same]
      exact ordered.fill range higher

theorem insertionPass_orders (values : List Int64) (r : Recorder) (i : Nat)
    (state : Rearranges values r) (bound : i < values.length) (ordered : OrderedUpTo r.array i) :
    Rearranges values (insertionPass r i) ∧ OrderedUpTo (insertionPass r i).array (i + 1) := by
  have marked := state.highlight [i] .key
  have opened : OrderedBut (r.highlight [i] .key).1.array i i := by
    rw [highlight_array]
    exact fun p q below upTo notHole => ordered p q below (by omega)
  obtain ⟨sunk, done⟩ := sinkLeft_orders values _ i i marked bound (Nat.le_refl i) opened
  unfold insertionPass
  refine ⟨sunk.sorted _, ?_⟩
  rw [sorted_array]
  exact done

theorem insertionSort_sorts (values : List Int64) (r : Recorder) (state : Rearranges values r) :
    Rearranges values (insertionSort r) ∧ (insertionSort r).array.Pairwise (· ≤ ·) := by
  have size := state.size_eq
  let Ordered (i : Nat) (r : Recorder) : Prop := Rearranges values r ∧ OrderedUpTo r.array i
  have start : Ordered 1 r := ⟨state, fun p q below upTo => by omega⟩
  have done : Ordered (1 + (r.size - 1)) (insertionSort r) := by
    apply foldl_range'_invariant Ordered insertionPass 1 (r.size - 1) r start
    rintro i s _ below ⟨state, ordered⟩
    exact insertionPass_orders values s i state (by omega) ordered
  refine ⟨done.1, pairwise_of_valueAt _ fun p q below inArray => ?_⟩
  have length := done.1.length_eq
  exact done.2 p q below (by omega)

end SortTrace.Sorting
