import Mathlib.Data.Nat.Choose.Basic
import SortTrace.Proofs.Sorting.Inversions
import SortTrace.Proofs.Sorting.Marks

/-!
How many events of each kind the sorting algorithms record. Bubble sort and insertion sort exchange
neighbours that are out of order, so they make one swap for each inversion; selection sort makes at most one
in each pass. Bubble sort and selection sort compare every pair of positions once, insertion sort makes one
comparison for each swap and one more for each value that stops behind another.
-/

namespace SortTrace.Sorting

open Recorder

theorem triangle_passes {n : Nat} {f : Recorder → Nat → Recorder} {r : Recorder}
    (R : Nat → Nat → Recorder → Prop) (start : R 0 0 r)
    (pass : ∀ i compares s, i + 1 < n → R i compares s → R (i + 1) (compares + (n - (i + 1))) (f s i)) :
    R (n - 1) (n.choose 2) ((List.range (n - 1)).foldl f r) := by
  let Passed (i : Nat) (s : Recorder) : Prop :=
    ∃ compares, compares + (n - i).choose 2 = n.choose 2 ∧ R i compares s
  have done : Passed (n - 1) ((List.range (n - 1)).foldl f r) := by
    apply foldl_range_invariant Passed f (n - 1) r ⟨0, Nat.zero_add _, start⟩
    rintro i s below ⟨compares, whole, sofar⟩
    refine ⟨_, ?_, pass i compares s (by omega) sofar⟩
    have row : (n - i).choose 2 = (n - (i + 1)) + (n - (i + 1)).choose 2 := by
      rw [show n - i = n - (i + 1) + 1 by omega, Nat.choose_succ_succ', Nat.choose_one_right]
    omega
  obtain ⟨compares, whole, passed⟩ := done
  have last : (n - (n - 1)).choose 2 = 0 := Nat.choose_eq_zero_of_lt (by omega)
  rwa [show compares = n.choose 2 by omega] at passed

theorem bubblePass_untangles {r : Recorder} {count : Nat} (inside : count < r.size) :
    (bubblePass r count).size = r.size ∧ ∃ swaps, Untangles count swaps r (bubblePass r count) := by
  let Passed (j : Nat) (s : Recorder) : Prop := s.size = r.size ∧ ∃ swaps, Untangles j swaps r s
  refine foldl_range_invariant Passed _ count r ⟨rfl, 0, .refl r⟩ ?_
  rintro j s below ⟨size, swaps, sofar⟩
  obtain ⟨more, once⟩ := Untangles.exchangeIf (r := s) (j := j) (by omega)
  exact ⟨(s.exchangeIf_size _ j (j + 1)).trans size, _, sofar.trans once⟩

theorem bubbleSort_untangles (r : Recorder) :
    ∃ swaps, Untangles (r.size.choose 2) swaps r (bubbleSort r) := by
  let Passed (_ compares : Nat) (s : Recorder) : Prop :=
    s.size = r.size ∧ ∃ swaps, Untangles compares swaps r s
  have done : Passed (r.size - 1) (r.size.choose 2) (bubbleSort r) := by
    refine triangle_passes Passed ⟨rfl, 0, .refl r⟩ ?_
    rintro i compares s below ⟨size, swaps, sofar⟩
    rw [show r.size - 1 - i = r.size - (i + 1) by omega]
    obtain ⟨same, more, once⟩ := @bubblePass_untangles s (r.size - (i + 1)) (by omega)
    have marked : Untangles 0 0 (bubblePass s (r.size - (i + 1))) _ :=
      .still (.sorted [r.size - (i + 1)]) (sorted_array _ _)
    have kept : ((bubblePass s (r.size - (i + 1))).sorted [r.size - (i + 1)]).1.size = s.size :=
      (congrArg List.length (sorted_array _ _)).trans same
    exact ⟨kept.trans size, _, sofar.trans (once.trans marked)⟩
  exact done.2

def IsPreceded (values : List Int64) (i : Nat) : Prop :=
  ∃ k < i, valueAt values k ≤ valueAt values i

instance (values : List Int64) (i : Nat) : Decidable (IsPreceded values i) :=
  inferInstanceAs (Decidable (∃ k < i, valueAt values k ≤ valueAt values i))

/-- How many positions have a value before them that is not larger than their own. -/
def precededCount (values : List Int64) : Nat :=
  (List.range values.length).countP (IsPreceded values ·)

theorem sinkLeft_untangles {r : Recorder} {hole : Nat} (inside : hole < r.size) :
    ∃ swaps, Untangles (swaps + min (sinkLeft r hole).2 1) swaps r (sinkLeft r hole).1 := by
  induction hole generalizing r with
  | zero => exact ⟨0, .refl r⟩
  | succ j ih =>
    obtain ⟨x, y, atJ, atNext, looked⟩ := r.compare_inside j (j + 1) (by omega) inside
    have seen : Untangles 1 0 r (r.note (.compare j (j + 1) x y)) := .still .compare rfl
    simp only [sinkLeft, looked]
    split
    · rename_i lower
      have moved := seen.trans (.swap (j := j) atJ atNext lower)
      have size : ((r.note (.compare j (j + 1) x y)).swap j (j + 1)).1.size = r.size := by
        rw [Recorder.size, swap_array, exchange_length]
        rfl
      obtain ⟨swaps, sunk⟩ := ih (r := ((r.note (.compare j (j + 1) x y)).swap j (j + 1)).1) (by omega)
      refine ⟨1 + swaps, ?_⟩
      have whole := moved.trans sunk
      rwa [Nat.zero_add, Nat.add_zero, ← Nat.add_assoc] at whole
    · refine ⟨0, ?_⟩
      rwa [Nat.min_eq_right (Nat.succ_pos j)]

theorem insertionPass_untangles {r : Recorder} {i : Nat} (inside : i < r.size) :
    ∃ swaps, Untangles (swaps + min (restOf r i) 1) swaps r (insertionPass r i) := by
  have opened : Untangles 0 0 r (r.highlight [i] .key).1 :=
    .still (.highlight [i] .key) (r.highlight_array [i] .key)
  have size : (r.highlight [i] .key).1.size = r.size := congrArg List.length (r.highlight_array [i] .key)
  obtain ⟨swaps, sunk⟩ := @sinkLeft_untangles (r.highlight [i] .key).1 i (by omega)
  have marked : Untangles 0 0 (sinkLeft (r.highlight [i] .key).1 i).1 (insertionPass r i) :=
    .still (.sorted [restOf r i]) (sorted_array _ _)
  refine ⟨swaps, ?_⟩
  have whole := opened.trans (sunk.trans marked)
  rwa [Nat.zero_add, Nat.zero_add, Nat.add_zero, Nat.add_zero] at whole

theorem rest_preceded (values : List Int64) {k : Nat} (bound : k + 1 < values.length) :
    min (restOf (insertionStates values k) (k + 1)) 1 =
      if IsPreceded values (k + 1) then 1 else 0 := by
  have here := List.getElem?_eq_getElem bound
  have key := valueAt_of_getElem? values (k + 1) _ here
  rw [(rest_eq values bound here).1]
  split
  · rename_i preceded
    obtain ⟨p, before, notLarger⟩ := preceded
    have inside : p < values.length := by omega
    have atP : (values.take (k + 1))[p]? = some values[p] := by
      rw [List.getElem?_take_of_lt before, List.getElem?_eq_getElem]
    have present : 0 < (values.take (k + 1)).countP (· ≤ values[k + 1]) := by
      refine List.countP_pos_iff.mpr ⟨_, List.mem_of_getElem? atP, ?_⟩
      rw [decide_eq_true_eq, Int64.le_iff_toInt_le, ← key, ← valueAt_getElem values p inside]
      exact notLarger
    omega
  · rename_i alone
    have absent : (values.take (k + 1)).countP (· ≤ values[k + 1]) = 0 := by
      refine List.countP_eq_zero.mpr fun x member notLarger => alone ?_
      obtain ⟨p, inside, rfl⟩ := List.mem_iff_getElem.mp member
      rw [List.length_take] at inside
      rw [List.getElem_take, decide_eq_true_eq, Int64.le_iff_toInt_le, ← key,
        ← valueAt_getElem values p (by omega)] at notLarger
      exact ⟨p, by omega, notLarger⟩
    rw [absent]
    rfl

theorem insertionStates_untangle (values : List Int64) {k : Nat} (bound : k < values.length) :
    ∃ swaps, Untangles (swaps + (List.range (k + 1)).countP (IsPreceded values ·)) swaps
      (.start values) (insertionStates values k) := by
  induction k with
  | zero => exact ⟨0, .refl _⟩
  | succ k ih =>
    obtain ⟨swaps, sofar⟩ := ih (by omega)
    obtain ⟨state, -⟩ := orderedUpTo_states values (Nat.lt_of_succ_lt bound)
    obtain ⟨more, once⟩ := insertionPass_untangles (r := insertionStates values k) (i := k + 1)
      (by rw [state.size_eq]; exact bound)
    refine ⟨swaps + more, ?_⟩
    have whole := sofar.trans once
    rw [← insertionStates_succ, rest_preceded values bound] at whole
    rw [List.range_succ, List.countP_append, List.countP_singleton]
    simp only [decide_eq_true_eq]
    rwa [Nat.add_add_add_comm]

theorem insertionSort_untangles (values : List Int64) :
    ∃ swaps, Untangles (swaps + precededCount values) swaps (.start values)
      (insertionSort (.start values)) := by
  cases values with
  | nil => exact ⟨0, .refl _⟩
  | cons x rest => exact insertionStates_untangle (x :: rest) (Nat.lt_succ_self rest.length)

/-- What holds while a pass looks for its smallest value: nothing has moved, and the best position so far
is the first one or holds a smaller value. -/
structure Challenged (r : Recorder) (i j : Nat) (found : Recorder × Nat) : Prop where
  steps : Steps (j - (i + 1)) 0 r found.1
  array_eq : found.1.array = r.array
  inside : found.2 < r.size
  lower : found.2 = i ∨ valueAt r.array found.2 < valueAt r.array i

theorem Challenged.step {r : Recorder} {i j : Nat} {found : Recorder × Nat}
    (challenged : Challenged r i j found) (behind : i < j) (bound : j < r.size) :
    Challenged r i (j + 1) (challenge found j) := by
  obtain ⟨s, best⟩ := found
  obtain ⟨steps, same, inside, lower⟩ := challenged
  simp only at steps same inside lower
  have size : s.size = r.size := congrArg List.length same
  obtain ⟨x, y, atBest, atJ, looked⟩ := s.compare_inside best j (by omega) (by omega)
  have current := valueAt_of_getElem? s.array best x atBest
  have value := valueAt_of_getElem? s.array j y atJ
  rw [same] at current value
  have further : Steps (j + 1 - (i + 1)) 0 r (s.note (.compare best j x y)) := by
    rw [show j + 1 - (i + 1) = j - (i + 1) + 1 by omega]
    exact steps.trans .compare
  simp only [challenge, looked]
  split
  · rename_i smaller
    have less := Int64.lt_iff_toInt_lt.mp smaller
    refine ⟨further, same, bound, .inr ?_⟩
    show valueAt r.array j < valueAt r.array i
    rcases lower with rfl | lower <;> omega
  · exact ⟨further, same, inside, lower⟩

theorem selectFrom_challenged {r : Recorder} {i : Nat} (inside : i < r.size) :
    Challenged r i r.size (selectFrom r i) := by
  have start : Challenged r i (i + 1) (r, i) :=
    ⟨by rw [Nat.sub_self]; exact .refl r, rfl, inside, .inl rfl⟩
  have done := foldl_range'_invariant (Challenged r i) challenge (i + 1) (r.size - (i + 1)) (r, i) start
    fun j found low high challenged => challenged.step (by omega) (by omega)
  rwa [show i + 1 + (r.size - (i + 1)) = r.size by omega] at done

theorem selectionPass_steps {r : Recorder} {i : Nat} (inside : i < r.size) :
    (selectionPass r i).size = r.size ∧
      ∃ swaps ≤ 1, Steps (r.size - (i + 1)) swaps r (selectionPass r i) := by
  have opened : Steps 0 0 r (r.highlight [i] .candidate).1 := .highlight [i] .candidate
  have size : (r.highlight [i] .candidate).1.size = r.size :=
    congrArg List.length (r.highlight_array [i] .candidate)
  refine ⟨passes_size (selectionPass_passes inside), ?_⟩
  obtain ⟨steps, same, bound, lower⟩ := selectFrom_challenged (r := (r.highlight [i] .candidate).1)
    (i := i) (by omega)
  rw [size] at steps bound
  have searched := opened.trans steps
  rw [Nat.zero_add] at searched
  unfold selectionPass
  dsimp only
  generalize selectFrom (r.highlight [i] .candidate).1 i = found at *
  obtain ⟨s, best⟩ := found
  dsimp only at *
  split
  · exact ⟨0, Nat.zero_le 1, searched.trans (.sorted [i])⟩
  · rename_i moved
    have length : s.array.length = r.size := (congrArg List.length same).trans size
    have boundI : i < s.array.length := by omega
    have boundBest : best < s.array.length := by omega
    have atI := List.getElem?_eq_getElem boundI
    have atBest := List.getElem?_eq_getElem boundBest
    have other : s.array[i] ≠ s.array[best] := by
      intro equal
      have less := lower.resolve_left moved
      rw [← same, valueAt_of_getElem? _ _ _ atI, valueAt_of_getElem? _ _ _ atBest, equal] at less
      exact Int.lt_irrefl _ less
    exact ⟨1, Nat.le_refl 1, (searched.trans (.swap atI atBest other)).trans (.sorted [i])⟩

theorem selectionSort_steps (r : Recorder) :
    ∃ swaps ≤ r.size - 1, Steps (r.size.choose 2) swaps r (selectionSort r) := by
  let Passed (i compares : Nat) (s : Recorder) : Prop :=
    s.size = r.size ∧ ∃ swaps ≤ i, Steps compares swaps r s
  have done : Passed (r.size - 1) (r.size.choose 2) (selectionSort r) := by
    refine triangle_passes Passed ⟨rfl, 0, Nat.le_refl 0, .refl r⟩ ?_
    rintro i compares s below ⟨size, swaps, few, sofar⟩
    obtain ⟨same, more, one, once⟩ := selectionPass_steps (r := s) (i := i) (by omega)
    rw [size] at once same
    exact ⟨same, swaps + more, by omega, sofar.trans once⟩
  exact done.2

theorem finish_counts {values : List Int64} {compares swaps : Nat} {r : Recorder}
    (steps : Steps compares swaps (.start values) r) :
    (r.finish.count .compare = compares ∧ r.finish.count .swap = swaps) ∧
      r.finish.count .set = 0 ∧ r.finish.count .comment = 0 ∧
      ∀ i j x y, Event.swap i j x y ∈ r.finish.events → x ≠ y := by
  obtain ⟨added, events, looks, moves, plain⟩ := steps
  have whole : r.finish.events = .init values :: (added ++ [Event.complete]) := by
    rw [finish, events]
    rfl
  have counted {kind : EventKind} (notInit : kind ≠ .init) (notComplete : kind ≠ .complete) :
      r.finish.count kind = added.countP (·.kind = kind) := by
    simp [Trace.count, whole, Event.kind, Ne.symm notInit, Ne.symm notComplete]
  have absent {kind : EventKind} (other : ∀ e : Event, e.IsSortStep → e.kind ≠ kind) :
      added.countP (·.kind = kind) = 0 :=
    List.countP_eq_zero.mpr fun e member => by simpa using other e (plain e member)
  refine ⟨⟨?_, ?_⟩, ?_, ?_, fun i j x y member => ?_⟩
  · rw [counted (by simp) (by simp), looks]
  · rw [counted (by simp) (by simp), moves]
  · rw [counted (by simp) (by simp)]
    exact absent fun e step => step.kind_ne.1
  · rw [counted (by simp) (by simp)]
    exact absent fun e step => step.kind_ne.2
  · rw [whole] at member
    have inside : Event.swap i j x y ∈ added := by simpa using member
    exact plain _ inside

theorem Algorithm.trace_counts (values : List Int64) :
    let n := values.length
    ((bubble.trace values).count .compare = n * (n - 1) / 2 ∧
      (bubble.trace values).count .swap = inversions values) ∧
    ((insertion.trace values).count .compare = inversions values + precededCount values ∧
      (insertion.trace values).count .swap = inversions values) ∧
    ((selection.trace values).count .compare = n * (n - 1) / 2 ∧
      (selection.trace values).count .swap ≤ n - 1) ∧
    ∀ a : Algorithm, (a.trace values).count .set = 0 ∧ (a.trace values).count .comment = 0 ∧
      (∀ i j x y, Event.swap i j x y ∈ (a.trace values).events → x ≠ y) ∧
      (a.trace values).count .sorted = n - 1 := by
  intro n
  have sorts (a : Algorithm) := a.sort_sorts values (.start values) (.start values)
  -- At the end of a sort there are no inversions left.
  have all {a : Algorithm} {compares swaps : Nat}
      (untangles : Untangles compares swaps (.start values) (a.sort (.start values))) :
      swaps = inversions values := by
    have fewer := untangles.fewer
    rw [inversions_ascending (sorts a).2] at fewer
    exact fewer
  obtain ⟨bubbled, bubble⟩ := bubbleSort_untangles (.start values)
  obtain ⟨inserted, insertion⟩ := insertionSort_untangles values
  obtain ⟨selected, few, selection⟩ := selectionSort_steps (.start values)
  obtain rfl := all (a := .bubble) bubble
  obtain rfl := all (a := .insertion) insertion
  obtain ⟨counts, plain⟩ := finish_counts bubble.steps
  obtain ⟨counts', plain'⟩ := finish_counts insertion.steps
  obtain ⟨⟨compares, swaps⟩, plain''⟩ := finish_counts selection
  rw [Nat.choose_two_right] at counts compares
  refine ⟨counts, counts', ⟨compares, swaps.trans_le few⟩, fun a => ?_⟩
  cases a with
  | bubble =>
    obtain ⟨passes, last⟩ := bubbleSort_passesThrough values
    have marks := passes.count_sorted
    rw [last] at marks
    exact ⟨plain.1, plain.2.1, plain.2.2, marks⟩
  | selection =>
    obtain ⟨passes, last⟩ := selectionSort_passesThrough values
    have marks := passes.count_sorted
    rw [last] at marks
    exact ⟨plain''.1, plain''.2.1, plain''.2.2, marks⟩
  | insertion =>
    have marks := (insertionSort_passesThrough values).count_sorted
    exact ⟨plain'.1, plain'.2.1, plain'.2.2, marks⟩

example : inversions [7, 1, 7] = 1 ∧ precededCount [7, 1, 7] = 1 := by decide

end SortTrace.Sorting
