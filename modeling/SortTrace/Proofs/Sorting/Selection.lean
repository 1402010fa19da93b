import SortTrace.Proofs.Sorting.Rearrangement
import SortTrace.Sorting.Selection

/-!
Selection sort is correct: a pass finds the position of a smallest value of its range and brings
that value to the front, so the positions in front of the ranges are in order and hold nothing
larger than what stands behind them.
-/

namespace SortTrace.Sorting

open Recorder

def SettledUpTo (array : List Int64) (count : Nat) : Prop :=
  ∀ p q, p < q → p < count → q < array.length → valueAt array p ≤ valueAt array q

structure SmallestIn (array : List Int64) (start stop best : Nat) : Prop where
  from_start : start ≤ best
  before_stop : best < stop
  smallest : ∀ p, start ≤ p → p < stop → valueAt array best ≤ valueAt array p

theorem SettledUpTo.select {array : List Int64} {i best : Nat} (settled : SettledUpTo array i)
    (smallest : SmallestIn array i array.length best) :
    SettledUpTo (exchange array i best) (i + 1) := by
  have boundBest := smallest.before_stop
  have fromI := smallest.from_start
  have boundI : i < array.length := by omega
  intro p q below range bound
  rw [exchange_length] at bound
  by_cases atI : p = i
  · rw [atI, valueAt_exchange_first array i best boundI boundBest]
    by_cases atBest : q = best
    · rw [atBest, valueAt_exchange_second array i best boundI boundBest]
      exact smallest.smallest i (Nat.le_refl i) boundI
    · rw [valueAt_exchange_other array i best q boundI boundBest (by omega) atBest]
      exact smallest.smallest q (by omega) bound
  · rw [valueAt_exchange_other array i best p boundI boundBest atI (by omega)]
    by_cases qAtI : q = i
    · rw [qAtI, valueAt_exchange_first array i best boundI boundBest]
      exact settled p best (by omega) (by omega) boundBest
    by_cases atBest : q = best
    · rw [atBest, valueAt_exchange_second array i best boundI boundBest]
      exact settled p i (by omega) (by omega) boundI
    · rw [valueAt_exchange_other array i best q boundI boundBest qAtI atBest]
      exact settled p q below (by omega) bound

theorem exchange_self (array : List Int64) (i : Nat) : exchange array i i = array := by
  unfold exchange
  split
  · rename_i x y atI again
    obtain ⟨bound, rfl⟩ := List.getElem?_eq_some_iff.mp atI
    obtain rfl : array[i] = y := by simpa [atI] using again
    simp
  · rfl

/-- What holds while a pass looks for its smallest value: nothing has moved, and the best position
so far is one of a smallest value among those seen. -/
structure Searching (values : List Int64) (array : List Int64) (start stop : Nat)
    (found : Recorder × Nat) : Prop where
  state : Rearranges values found.1
  array_eq : found.1.array = array
  smallest : SmallestIn array start stop found.2

theorem Searching.step {values array : List Int64} {start j : Nat} {found : Recorder × Nat}
    (searching : Searching values array start j found) (bound : j < values.length) :
    Searching values array start (j + 1) (challenge found j) := by
  obtain ⟨r, best⟩ := found
  obtain ⟨state, same, ⟨fromStart, beforeStop, smallest⟩⟩ := searching
  simp only at state same fromStart beforeStop smallest
  have size := state.size_eq
  obtain ⟨x, y, atBest, atJ, looked⟩ := r.compare_inside best j (by omega) (by omega)
  have current := valueAt_of_getElem? r.array best x atBest
  have value := valueAt_of_getElem? r.array j y atJ
  rw [same] at current value
  have compared := state.compare best j
  simp only [looked] at compared
  simp only [challenge, looked]
  by_cases smaller : y < x
  · rw [if_pos smaller]
    have lower := Int64.lt_iff_toInt_lt.mp smaller
    refine ⟨compared, same, ⟨by omega, by omega, ?_⟩⟩
    intro p low high
    rcases Nat.lt_succ_iff_lt_or_eq.mp high with high | rfl
    · have seen := smallest p low high
      show valueAt array j ≤ valueAt array p
      omega
    · exact Int.le_refl _
  · rw [if_neg smaller]
    have higher := Int64.le_iff_toInt_le.mp (Int64.not_lt.mp smaller)
    refine ⟨compared, same, ⟨fromStart, by omega, ?_⟩⟩
    intro p low high
    rcases Nat.lt_succ_iff_lt_or_eq.mp high with high | rfl
    · exact smallest p low high
    · show valueAt array best ≤ valueAt array p
      omega

theorem selectFrom_smallest (values : List Int64) (r : Recorder) (i : Nat)
    (state : Rearranges values r) (bound : i < values.length) :
    Searching values r.array i values.length (selectFrom r i) := by
  have start : Searching values r.array i (i + 1) (r, i) := by
    refine ⟨state, rfl, ⟨Nat.le_refl i, Nat.lt_succ_self i, ?_⟩⟩
    intro p low high
    obtain rfl : p = i := by omega
    exact Int.le_refl _
  have done := foldl_range'_invariant (Searching values r.array i) challenge (i + 1)
    (r.size - (i + 1)) (r, i) start fun j found _ high searching =>
      searching.step (by rw [state.size_eq] at high; omega)
  rw [show i + 1 + (r.size - (i + 1)) = values.length by rw [state.size_eq]; omega] at done
  exact done

theorem selectionPass_settles (values : List Int64) (r : Recorder) (i : Nat)
    (state : Rearranges values r) (bound : i < values.length) (settled : SettledUpTo r.array i) :
    Rearranges values (selectionPass r i) ∧ SettledUpTo (selectionPass r i).array (i + 1) := by
  have marked := state.highlight [i] .candidate
  have found := selectFrom_smallest values _ i marked bound
  simp only [highlight_array] at found
  obtain ⟨searched, same, smallest⟩ := found
  unfold selectionPass
  generalize selectFrom (r.highlight [i] .candidate).1 i = result at searched same smallest
  obtain ⟨s, best⟩ := result
  simp only at searched same smallest ⊢
  have next : SettledUpTo (exchange s.array i best) (i + 1) := by
    rw [same]
    exact settled.select (by rw [state.length_eq]; exact smallest)
  by_cases inPlace : best = i
  · rw [if_pos inPlace, sorted_array]
    rw [inPlace, exchange_self] at next
    exact ⟨searched.sorted [i], next⟩
  · rw [if_neg inPlace, sorted_array, swap_array]
    exact ⟨(searched.swap i best).sorted [i], next⟩

theorem selectionSort_sorts (values : List Int64) (r : Recorder) (state : Rearranges values r) :
    Rearranges values (selectionSort r) ∧ (selectionSort r).array.Pairwise (· ≤ ·) := by
  have size := state.size_eq
  let Settled (i : Nat) (r : Recorder) : Prop := Rearranges values r ∧ SettledUpTo r.array i
  have done : Settled (r.size - 1) (selectionSort r) := by
    apply foldl_range_invariant Settled selectionPass (r.size - 1) r ⟨state, nofun⟩
    rintro i s below ⟨state, settled⟩
    exact selectionPass_settles values s i state (by omega) settled
  refine ⟨done.1, pairwise_of_valueAt _ fun p q below inArray => ?_⟩
  have length := done.1.length_eq
  exact done.2 p q below (by omega) inArray

end SortTrace.Sorting
