import SortTrace.Proofs.Sorting.Rearrangement

/-!
Inversions: pairs of values that are out of order. An exchange of two neighbours that are out of order takes
away one of them and leaves all others, so a sort that makes only such exchanges makes as many as there are
inversions.
-/

namespace SortTrace

namespace Sorting

open Recorder

/-- The number of pairs of positions of which the first holds the larger value. -/
def inversions : List Int64 → Nat
  | [] => 0
  | x :: rest => rest.countP (· < x) + inversions rest

theorem inversions_ascending {values : List Int64} (ascending : values.Pairwise (· ≤ ·)) :
    inversions values = 0 := by
  induction values with
  | nil => rfl
  | cons x rest ih =>
    obtain ⟨least, others⟩ := List.pairwise_cons.mp ascending
    have none : rest.countP (· < x) = 0 := List.countP_eq_zero.mpr fun y member => by
      simpa using Int64.not_lt.mpr (least y member)
    rw [inversions, none, ih others]

theorem exchange_cons (z : Int64) (array : List Int64) (i j : Nat) :
    exchange (z :: array) (i + 1) (j + 1) = z :: exchange array i j := by
  unfold exchange
  rw [List.getElem?_cons_succ, List.getElem?_cons_succ]
  split <;> rfl

theorem inversions_exchange {array : List Int64} {j : Nat} {x y : Int64} (atJ : array[j]? = some x)
    (atNext : array[j + 1]? = some y) (lower : y < x) :
    inversions array = inversions (exchange array j (j + 1)) + 1 := by
  induction j generalizing array with
  | zero =>
    obtain ⟨rest, rfl⟩ : ∃ rest, array = x :: y :: rest := by
      rcases array with _ | ⟨a, _ | ⟨b, rest⟩⟩
      · cases atJ
      · cases atNext
      · cases atJ
        cases atNext
        exact ⟨rest, rfl⟩
    have higher : ¬ x < y := Int64.not_lt.mpr (Int64.le_of_lt lower)
    show inversions (x :: y :: rest) = inversions (y :: x :: rest) + 1
    simp only [inversions, List.countP_cons, decide_eq_true_eq, if_pos lower, if_neg higher]
    omega
  | succ j ih =>
    cases array with
    | nil => cases atJ
    | cons z rest =>
      -- The values behind `z` are the same ones, in another order.
      have same := (exchange_perm rest j (j + 1)).countP_eq fun y => decide (y < z)
      have fewer := ih atJ atNext
      rw [exchange_cons, inversions, inversions, same]
      omega

end Sorting

/-- An event that sorting by exchanges leads to: nothing is overwritten or said, and equal values are not
exchanged. -/
def Event.IsSortStep : Event → Prop
  | compare .. | highlight .. | sorted .. => True
  | swap _ _ x y => x ≠ y
  | init _ | set .. | complete | comment _ => False

theorem Event.IsSortStep.kind_ne {e : Event} (step : e.IsSortStep) :
    e.kind ≠ .set ∧ e.kind ≠ .comment := by
  cases e with
  | init | set | complete | comment => cases step
  | _ => simp [kind]

namespace Recorder

def Steps (compares swaps : Nat) (r r' : Recorder) : Prop :=
  ∃ added, r'.events = r.events ++ added ∧ added.countP (·.kind = .compare) = compares ∧
    added.countP (·.kind = .swap) = swaps ∧ ∀ e ∈ added, e.IsSortStep

variable {compares swaps more others : Nat} {r r' r'' : Recorder}

namespace Steps

theorem refl (r : Recorder) : Steps 0 0 r r := ⟨[], (List.append_nil _).symm, rfl, rfl, by simp⟩

theorem trans (first : Steps compares swaps r r') (second : Steps more others r' r'') :
    Steps (compares + more) (swaps + others) r r'' := by
  obtain ⟨added, events, looks, moves, steps⟩ := first
  obtain ⟨further, events', looks', moves', steps'⟩ := second
  refine ⟨added ++ further, by rw [events', events, List.append_assoc], ?_, ?_, ?_⟩
  · rw [List.countP_append, looks, looks']
  · rw [List.countP_append, moves, moves']
  · exact List.forall_mem_append.mpr ⟨steps, steps'⟩

theorem compare {i j : Nat} {x y : Int64} : Steps 1 0 r (r.note (.compare i j x y)) :=
  ⟨[.compare i j x y], by simp [note, events], rfl, rfl, by simp [Event.IsSortStep]⟩

theorem swap {i j : Nat} {x y : Int64} (atI : r.array[i]? = some x) (atJ : r.array[j]? = some y)
    (other : x ≠ y) : Steps 0 1 r (r.swap i j).1 :=
  ⟨[.swap i j x y], by simp [Recorder.swap, atI, atJ, events], rfl, rfl, by
    simpa [Event.IsSortStep] using other⟩

theorem highlight (indices : List Nat) (color : Color) : Steps 0 0 r (r.highlight indices color).1 := by
  unfold Recorder.highlight
  split
  · exact ⟨[.highlight indices color], by simp [note, events], rfl, rfl, by simp [Event.IsSortStep]⟩
  · exact .refl r

theorem sorted (indices : List Nat) : Steps 0 0 r (r.sorted indices).1 := by
  unfold Recorder.sorted
  split
  · exact ⟨[.sorted indices], by simp [note, events], rfl, rfl, by simp [Event.IsSortStep]⟩
  · exact .refl r

end Steps

structure Untangles (compares swaps : Nat) (r r' : Recorder) : Prop where
  steps : Steps compares swaps r r'
  fewer : swaps + Sorting.inversions r'.array = Sorting.inversions r.array

namespace Untangles

theorem refl (r : Recorder) : Untangles 0 0 r r := ⟨.refl r, Nat.zero_add _⟩

theorem trans (first : Untangles compares swaps r r') (second : Untangles more others r' r'') :
    Untangles (compares + more) (swaps + others) r r'' := by
  refine ⟨first.steps.trans second.steps, ?_⟩
  have fewer := first.fewer
  have fewer' := second.fewer
  omega

theorem still (steps : Steps compares 0 r r') (same : r'.array = r.array) :
    Untangles compares 0 r r' :=
  ⟨steps, by rw [same, Nat.zero_add]⟩

theorem swap {j : Nat} {x y : Int64} (atJ : r.array[j]? = some x) (atNext : r.array[j + 1]? = some y)
    (lower : y < x) : Untangles 0 1 r (r.swap j (j + 1)).1 := by
  refine ⟨.swap atJ atNext fun same => Int64.lt_irrefl (same ▸ lower), ?_⟩
  rw [r.swap_array, Sorting.inversions_exchange atJ atNext lower, Nat.add_comm]

theorem exchangeIf {j : Nat} (inside : j + 1 < r.size) :
    ∃ swaps, Untangles 1 swaps r (r.exchangeIf (fun x y => y < x) j (j + 1)) := by
  obtain ⟨x, y, atJ, atNext, looked⟩ := r.compare_inside j (j + 1) (Nat.lt_of_succ_lt inside) inside
  have seen : Untangles 1 0 r (r.note (.compare j (j + 1) x y)) := .still .compare rfl
  simp only [Recorder.exchangeIf, looked, decide_eq_true_eq]
  split
  · exact ⟨_, seen.trans (.swap atJ atNext ‹_›)⟩
  · exact ⟨_, seen⟩

end Untangles

end Recorder

end SortTrace
