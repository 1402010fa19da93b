import SortTrace.Proofs.Sorting.Passes
import SortTrace.Proofs.Sorting.Sorted

/-!
The marks that the sorting algorithms leave. A pass of bubble sort or selection sort marks a position
that has its final value and is never touched again; a pass of insertion sort marks where the value it
inserted rests for now, among the values that it has seen so far in ascending order.
-/

namespace SortTrace.Sorting

open Recorder

theorem passes_sorted {region : Nat → Prop} {r moved : Recorder} {mark : Nat}
    (asks : r.Asks (Request.Within region) moved) (inside : mark < r.size) :
    Passes region mark r (moved.sorted [mark]).1 := by
  obtain ⟨-, -, size⟩ := asks.reaches.grown
  exact ⟨moved, asks, by omega, rfl⟩

theorem within_compare (region : Nat → Prop) (i j : Nat) : (Request.compare i j).Within region :=
  ⟨by simp [Request.kind], by simp [Request.kind]⟩

theorem within_highlight (region : Nat → Prop) (indices : List Nat) (color : Color) :
    (Request.highlight indices color).Within region :=
  ⟨by simp [Request.kind], by simp [Request.kind]⟩

theorem within_swap {region : Nat → Prop} {i j : Nat} (first : region i) (second : region j) :
    (Request.swap i j).Within region :=
  ⟨by simp [Request.kind], by simp [Request.positions, first, second]⟩

theorem bubblePass_asks (r : Recorder) (count : Nat) :
    r.Asks (Request.Within (· ≤ count)) (bubblePass r count) :=
  foldl_range_invariant (fun _ s => r.Asks (Request.Within (· ≤ count)) s) _ count r (.refl r)
    fun j s below asks => asks.trans <| s.asks_exchangeIf (within_compare _ j (j + 1))
      (within_swap (by omega) (by omega)) _

theorem challenge_asks (region : Nat → Prop) (found : Recorder × Nat) (j : Nat) :
    found.1.Asks (Request.Within region) (challenge found j).1 ∧
      ((challenge found j).2 = found.2 ∨ (challenge found j).2 = j) := by
  obtain ⟨r, best⟩ := found
  have looked := Asks.request (within_compare region best j) r
  simp only [handle] at looked
  rcases compared : r.compare best j with ⟨s, _ | ⟨current, value⟩⟩
  all_goals
    rw [compared] at looked
    simp only [challenge, compared]
    refine ⟨looked, ?_⟩
  · exact .inl trivial
  · split
    · exact .inr rfl
    · exact .inl rfl

theorem selectFrom_asks (region : Nat → Prop) (r : Recorder) (i : Nat) :
    r.Asks (Request.Within region) (selectFrom r i).1 ∧ i ≤ (selectFrom r i).2 :=
  foldl_range'_invariant
    (fun _ found => r.Asks (Request.Within region) found.1 ∧ i ≤ found.2) challenge (i + 1)
    (r.size - (i + 1)) (r, i) ⟨.refl r, Nat.le_refl i⟩ fun j found low _ sofar => by
      obtain ⟨asks, best⟩ := challenge_asks region found j
      exact ⟨sofar.1.trans asks, by rcases best with same | same <;> omega⟩

theorem selectionPass_passes {r : Recorder} {i : Nat} (inside : i < r.size) :
    Passes (i ≤ ·) i r (selectionPass r i) := by
  have opened := Asks.request (within_highlight (i ≤ ·) [i] .candidate) r
  obtain ⟨searched, low⟩ := selectFrom_asks (i ≤ ·) (r.highlight [i] .candidate).1 i
  unfold selectionPass
  dsimp only
  refine passes_sorted ?_ inside
  split
  · exact opened.trans searched
  · exact (opened.trans searched).trans (.request (within_swap (Nat.le_refl i) low) _)

theorem sinkLeft_asks {last hole : Nat} (range : hole ≤ last) (r : Recorder) :
    r.Asks (Request.Within (· ≤ last)) (sinkLeft r hole).1 ∧ (sinkLeft r hole).2 ≤ hole := by
  induction hole generalizing r with
  | zero => exact ⟨.refl r, Nat.le_refl 0⟩
  | succ j ih =>
    have looked := Asks.request (within_compare (· ≤ last) j (j + 1)) r
    simp only [handle] at looked
    have swaps : (Request.swap j (j + 1)).Within (· ≤ last) := within_swap (by omega) range
    rcases compared : r.compare j (j + 1) with ⟨s, _ | ⟨left, key⟩⟩
    all_goals
      rw [compared] at looked
      simp only [sinkLeft, compared]
    · exact ⟨looked, Nat.le_refl _⟩
    · split
      · obtain ⟨sunk, low⟩ := ih (by omega) (s.swap j (j + 1)).1
        exact ⟨(looked.trans (.request swaps s)).trans sunk, by omega⟩
      · exact ⟨looked, Nat.le_refl _⟩

def restOf (r : Recorder) (i : Nat) : Nat := (sinkLeft (r.highlight [i] .key).1 i).2

theorem insertionPass_passes {r : Recorder} {i : Nat} (inside : i < r.size) :
    Passes (· ≤ i) (restOf r i) r (insertionPass r i) := by
  have opened := Asks.request (within_highlight (· ≤ i) [i] .key) r
  obtain ⟨sunk, low⟩ := sinkLeft_asks (Nat.le_refl i) (r.highlight [i] .key).1
  exact passes_sorted (opened.trans sunk) (Nat.lt_of_le_of_lt low inside)

theorem passes_size {region : Nat → Prop} {mark : Nat} {r r' : Recorder}
    (passes : Passes region mark r r') : r'.size = r.size := by
  obtain ⟨-, -, size⟩ := passes.asks.reaches.grown
  exact size

def statesOf (f : Recorder → Nat → Recorder) (start : Nat) (r : Recorder) (k : Nat) : Recorder :=
  (List.range' start k).foldl f r

theorem statesOf_succ (f : Recorder → Nat → Recorder) (start : Nat) (r : Recorder) (k : Nat) :
    statesOf f start r (k + 1) = f (statesOf f start r k) (start + k) := by
  simp [statesOf, List.range'_concat]

theorem passesThrough_statesOf {f : Recorder → Nat → Recorder} {start count : Nat}
    {region : Nat → Nat → Prop} {mark : Nat → Nat} (values : List Int64)
    (pass : ∀ k < count, ∀ r : Recorder, r = statesOf f start (.start values) k →
      r.size = values.length → Passes (region k) (mark k) r (f r (start + k))) :
    PassesThrough values region mark count (statesOf f start (.start values)) := by
  have size : ∀ k ≤ count, (statesOf f start (.start values) k).size = values.length := by
    intro k bound
    induction k with
    | zero => rfl
    | succ k ih =>
      have same := ih (by omega)
      rw [statesOf_succ, passes_size (pass k (by omega) _ rfl same), same]
  refine ⟨rfl, fun k bound => ?_⟩
  rw [statesOf_succ]
  exact pass k bound _ rfl (size k (by omega))

def ascending (values : List Int64) : List Int64 := values.mergeSort fun x y => x ≤ y

theorem pairwise_ascending (values : List Int64) : (ascending values).Pairwise (· ≤ ·) := by
  have sorted := @List.pairwise_mergeSort Int64 (fun x y => decide (x ≤ y))
    (fun x y z => by simpa using Int64.le_trans) (fun x y => by simpa using Int64.le_total x y) values
  simpa [ascending] using sorted

theorem eq_ascending {array values : List Int64} (perm : array.Perm values)
    (sorted : array.Pairwise (· ≤ ·)) : array = ascending values :=
  (perm.trans (List.mergeSort_perm values _).symm).eq_of_pairwise
    (fun _ _ _ _ => Int64.le_antisymm) sorted (pairwise_ascending values)

/-- At a step the mark with a given number is set, on a position that has its final value and keeps
it. -/
structure MarksFinal (t : Trace) (order : List Int64) (number step p : Nat) : Prop where
  nth : t.IsNth .sorted number step
  mark : t.events[step]? = some (.sorted [p])
  final : ∃ value, order[p]? = some value ∧ t.KeepsFrom step p value

theorem marksFinal {values : List Int64} {region : Nat → Nat → Prop} {mark : Nat → Nat}
    {count : Nat} {r : Nat → Recorder} (through : PassesThrough values region mark count r)
    (sorts : Rearranges values (r count) ∧ (r count).array.Pairwise (· ≤ ·)) {k : Nat}
    (bound : k < count) (inside : mark k < values.length)
    (left : ∀ j, k < j → j < count → ¬ region j (mark k)) :
    ∃ step, MarksFinal (r count).finish (ascending values) (k + 1) step (mark k) := by
  obtain ⟨step, nth, here, state, keeps⟩ := through.marked bound
  obtain ⟨⟨⟨inner, done⟩, perm⟩, sorted⟩ := sorts
  obtain ⟨earlier, faithful⟩ := through.faithful (k := k + 1) bound
  have size : (r (k + 1)).array.length = values.length := faithful.size_eq
  obtain ⟨value, held⟩ : ∃ value, (r (k + 1)).array[mark k]? = some value :=
    ⟨_, List.getElem?_eq_getElem (by omega)⟩
  have kept := keeps (mark k) value left held
  have short : step < (r count).finish.length := (List.getElem?_eq_some_iff.mp here).1
  -- The value is still there in the last state, which is the sorted array.
  obtain ⟨array, last, final⟩ :=
    kept.held ((r count).finish.length - 1) (by omega) (by omega)
  rw [← Trace.replay, done.replay_eq] at last
  cases last
  rw [eq_ascending perm sorted] at final
  exact ⟨step, nth, here, value, final, kept⟩

theorem bubbleSort_passesThrough (values : List Int64) :
    let pass (r : Recorder) (i : Nat) : Recorder :=
      ((bubblePass r (values.length - 1 - i)).sorted [values.length - 1 - i]).1
    PassesThrough values (fun k p => p ≤ values.length - 1 - k) (fun k => values.length - 1 - k)
        (values.length - 1) (statesOf pass 0 (.start values)) ∧
      statesOf pass 0 (.start values) (values.length - 1) = bubbleSort (.start values) := by
  intro pass
  refine ⟨passesThrough_statesOf values fun k bound r _ size => ?_, ?_⟩
  · rw [Nat.zero_add]
    exact passes_sorted (bubblePass_asks r _) (by omega)
  · rw [statesOf, ← List.range_eq_range']
    rfl

theorem selectionSort_passesThrough (values : List Int64) :
    PassesThrough values (· ≤ ·) id (values.length - 1)
        (statesOf selectionPass 0 (.start values)) ∧
      statesOf selectionPass 0 (.start values) (values.length - 1) =
        selectionSort (.start values) := by
  refine ⟨passesThrough_statesOf values fun k bound r _ size => ?_, ?_⟩
  · rw [Nat.zero_add]
    exact selectionPass_passes (by omega)
  · rw [statesOf, ← List.range_eq_range']
    rfl

/-- The states between the passes of insertion sort; before the first, one value counts as inserted. -/
def insertionStates (values : List Int64) : Nat → Recorder :=
  statesOf insertionPass 1 (.start values)

theorem insertionStates_succ (values : List Int64) (k : Nat) :
    insertionStates values (k + 1) = insertionPass (insertionStates values k) (k + 1) := by
  rw [insertionStates, statesOf_succ, Nat.add_comm 1 k]

theorem insertionSort_passesThrough (values : List Int64) :
    PassesThrough values (fun k p => p ≤ k + 1) (fun k => restOf (insertionStates values k) (k + 1))
      (values.length - 1) (insertionStates values) := by
  refine passesThrough_statesOf values fun k bound r same size => ?_
  have inside : k + 1 < r.size := by omega
  rw [Nat.add_comm 1 k]
  cases same
  exact insertionPass_passes inside

theorem orderedUpTo_states (values : List Int64) {k : Nat} (bound : k < values.length) :
    Rearranges values (insertionStates values k) ∧
      OrderedUpTo (insertionStates values k).array (k + 1) := by
  induction k with
  | zero => exact ⟨.start values, fun p q below upTo => by omega⟩
  | succ k ih =>
    obtain ⟨state, ordered⟩ := ih (by omega)
    rw [insertionStates_succ]
    exact insertionPass_orders values _ (k + 1) state bound ordered

def LargerAfter (array : List Int64) (last rest : Nat) (key : Int) : Prop :=
  ∀ q, rest < q → q ≤ last → key < valueAt array q

theorem sinkLeft_rests {values : List Int64} {last hole : Nat} {key : Int} (r : Recorder)
    (state : Rearranges values r) (bound : last < values.length) (range : hole ≤ last)
    (here : valueAt r.array hole = key) (larger : LargerAfter r.array last hole key) :
    valueAt (sinkLeft r hole).1.array (sinkLeft r hole).2 = key ∧
      LargerAfter (sinkLeft r hole).1.array last (sinkLeft r hole).2 key := by
  induction hole generalizing r with
  | zero => exact ⟨here, larger⟩
  | succ j ih =>
    have size := state.size_eq
    have length := state.length_eq
    obtain ⟨x, y, atJ, atNext, looked⟩ := r.compare_inside j (j + 1) (by omega) (by omega)
    have left := valueAt_of_getElem? r.array j x atJ
    have right := valueAt_of_getElem? r.array (j + 1) y atNext
    have compared := state.compare j (j + 1)
    have same := r.compare_array j (j + 1)
    rw [looked] at compared same
    simp only [sinkLeft, looked]
    split
    · rename_i smaller
      have lower := Int64.lt_iff_toInt_lt.mp smaller
      apply ih _ (compared.swap j (j + 1)) (by omega)
      · rw [swap_array, same, valueAt_exchange_first r.array j (j + 1) (by omega) (by omega), here]
      · intro q behind upTo
        rw [swap_array, same]
        by_cases atNext : q = j + 1
        · rw [atNext, valueAt_exchange_second r.array j (j + 1) (by omega) (by omega)]
          omega
        · rw [valueAt_exchange_other r.array j (j + 1) q (by omega) (by omega) (by omega) atNext]
          exact larger q (by omega) upTo
    · rw [same]
      exact ⟨here, larger⟩

theorem insertionStates_untouched (values : List Int64) {k : Nat} (bound : k < values.length) (q : Nat)
    (behind : k < q) :
    (insertionStates values k).array[q]? = values[q]? := by
  induction k with
  | zero => rfl
  | succ k ih =>
    obtain ⟨added, -, array, moved⟩ :=
      ((insertionSort_passesThrough values).pass k (by omega)).events
    rw [array, arrayAfter_kept, ih (by omega) (by omega)]
    intro e member changes named
    have low := (moved e member).2 changes q named
    omega

theorem insertionStates_array (values : List Int64) {k : Nat} (bound : k < values.length) :
    (insertionStates values k).array =
      ascending (values.take (k + 1)) ++ values.drop (k + 1) := by
  obtain ⟨state, ordered⟩ := orderedUpTo_states values bound
  have untouched := insertionStates_untouched values bound
  have length := state.length_eq
  have perm := state.perm
  generalize (insertionStates values k).array = array at *
  have rest : array.drop (k + 1) = values.drop (k + 1) := by
    apply List.ext_getElem?
    intro q
    rw [List.getElem?_drop, List.getElem?_drop]
    exact untouched _ (by omega)
  have front : (array.take (k + 1)).Perm (values.take (k + 1)) := by
    rw [← List.take_append_drop (k + 1) array, ← List.take_append_drop (k + 1) values, rest] at perm
    exact (List.perm_append_right_iff _).mp perm
  have sorted : (array.take (k + 1)).Pairwise (· ≤ ·) := by
    apply pairwise_of_valueAt
    intro p q below inside
    rw [List.length_take] at inside
    have ordered := ordered p q below (by omega)
    simp only [valueAt, List.getD_eq_getElem?_getD] at ordered ⊢
    rwa [List.getElem?_take_of_lt (by omega), List.getElem?_take_of_lt (by omega)]
  rw [← eq_ascending front sorted, ← rest, List.take_append_drop]

theorem countP_split {α : Type} {P : α → Bool} {xs : List α} {m : Nat} (short : m ≤ xs.length)
    (first : ∀ x ∈ xs.take m, P x = true) (others : ∀ x ∈ xs.drop m, P x = false) :
    xs.countP P = m := by
  rw [← List.take_append_drop m xs, List.countP_append, List.countP_eq_length.mpr first,
    List.countP_eq_zero.mpr fun x member => by simp [others x member], List.length_take,
    Nat.min_eq_left short, Nat.add_zero]

theorem valueAt_getElem (array : List Int64) (p : Nat) (inside : p < array.length) :
    valueAt array p = array[p].toInt :=
  valueAt_of_getElem? array p _ (List.getElem?_eq_getElem inside)

theorem insertionPass_rests {values : List Int64} {r : Recorder} {i : Nat} {key : Int64}
    (state : Rearranges values r) (bound : i < values.length) (here : r.array[i]? = some key) :
    restOf r i ≤ i ∧ (insertionPass r i).array[restOf r i]? = some key ∧
      LargerAfter (insertionPass r i).array i (restOf r i) key.toInt := by
  have marked := state.highlight [i] .key
  have atHole : valueAt (r.highlight [i] .key).1.array i = key.toInt := by
    rw [highlight_array]
    exact valueAt_of_getElem? _ _ _ here
  obtain ⟨asks, low⟩ := sinkLeft_asks (Nat.le_refl i) (r.highlight [i] .key).1
  obtain ⟨rests, larger⟩ := sinkLeft_rests _ marked bound (Nat.le_refl i) atHole
    fun q behind upTo => by omega
  obtain ⟨-, -, size⟩ := asks.reaches.grown
  have array : (insertionPass r i).array = (sinkLeft (r.highlight [i] .key).1 i).1.array := by
    rw [insertionPass, sorted_array]
  have inside : restOf r i < (insertionPass r i).array.length := by
    have same := marked.size_eq
    have known : (insertionPass r i).array.length = (r.highlight [i] .key).1.size :=
      (congrArg List.length array).trans size
    exact Nat.lt_of_le_of_lt low (by omega)
  rw [← array] at rests larger
  refine ⟨low, ?_, larger⟩
  rw [List.getElem?_eq_getElem inside]
  exact congrArg some (Int64.toInt_inj.mp ((valueAt_getElem _ _ inside).symm.trans rests))

theorem rest_eq (values : List Int64) {k : Nat} {key : Int64} (bound : k + 1 < values.length)
    (here : values[k + 1]? = some key) :
    restOf (insertionStates values k) (k + 1) = (values.take (k + 1)).countP (· ≤ key) ∧
      (insertionStates values (k + 1)).array[restOf (insertionStates values k) (k + 1)]? =
        some key := by
  obtain ⟨state, -⟩ := orderedUpTo_states values (Nat.lt_of_succ_lt bound)
  obtain ⟨after, ordered⟩ := orderedUpTo_states values bound
  have before : (insertionStates values k).array[k + 1]? = some key :=
    (insertionStates_untouched values (Nat.lt_of_succ_lt bound) _ (Nat.lt_succ_self k)).trans here
  obtain ⟨low, rests, larger⟩ := insertionPass_rests state bound before
  rw [← insertionStates_succ] at rests larger
  refine ⟨?_, rests⟩
  have front := insertionStates_array values bound
  have length := after.length_eq
  generalize restOf (insertionStates values k) (k + 1) = rest at *
  generalize (insertionStates values (k + 1)).array = array at *
  have atRest := valueAt_of_getElem? array rest key rests
  have perm : (array.take (k + 2)).Perm (values.take (k + 1) ++ [key]) := by
    have taken : values.take (k + 2) = values.take (k + 1) ++ [key] := by
      rw [List.take_add_one, here, Option.toList_some]
    have size : (ascending (values.take (k + 2))).length = k + 2 := by
      rw [ascending, List.length_mergeSort, List.length_take]
      omega
    rw [front, List.take_left' size, ← taken]
    exact List.mergeSort_perm _ _
  -- The values in front of the resting place are the ones that are not larger.
  have counted : (array.take (k + 2)).countP (· ≤ key) = rest + 1 := by
    apply countP_split (by rw [List.length_take]; omega)
    · intro x member
      rw [List.take_take, Nat.min_eq_left (by omega)] at member
      obtain ⟨p, inside, rfl⟩ := List.mem_iff_getElem.mp member
      rw [List.length_take] at inside
      rw [List.getElem_take, decide_eq_true_eq, Int64.le_iff_toInt_le, ← atRest,
        ← valueAt_getElem]
      rcases Nat.lt_succ_iff_lt_or_eq.mp (show p < rest + 1 by omega) with below | rfl
      · exact ordered p rest below (by omega)
      · exact Int.le_refl _
    · intro x member
      obtain ⟨p, inside, rfl⟩ := List.mem_iff_getElem.mp member
      rw [List.length_drop, List.length_take] at inside
      rw [List.getElem_drop, List.getElem_take, decide_eq_false_iff_not, Int64.not_le,
        Int64.lt_iff_toInt_lt, ← valueAt_getElem]
      exact larger _ (by omega) (by omega)
  rw [perm.countP_eq, List.countP_append] at counted
  simpa using counted.symm

/-- At a step the mark with number `i` is set, on the position where the `i`-th value has come to rest:
behind those before it that are not larger. The values up to it are in ascending order by then, and
those behind it have not been touched. -/
structure MarksRest (t : Trace) (values : List Int64) (i step p : Nat) : Prop where
  nth : t.IsNth .sorted i step
  mark : t.events[step]? = some (.sorted [p])
  state : t.stateAt step = .ok (ascending (values.take (i + 1)) ++ values.drop (i + 1))
  rest : ∃ key, values[i]? = some key ∧ p = (values.take i).countP (· ≤ key) ∧
    (ascending (values.take (i + 1)) ++ values.drop (i + 1))[p]? = some key

theorem marksRest (values : List Int64) {k : Nat} (bound : k + 1 < values.length) :
    ∃ step p, MarksRest (Algorithm.insertion.trace values) values (k + 1) step p := by
  obtain ⟨step, nth, mark, state, -⟩ :=
    (insertionSort_passesThrough values).marked (k := k) (by omega)
  have here := List.getElem?_eq_getElem bound
  obtain ⟨counted, rests⟩ := rest_eq values bound here
  rw [insertionStates_array values bound] at state rests
  exact ⟨step, _, nth, mark, state, _, here, counted, rests⟩

/-- Bubble sort marks from the last position downwards, selection sort from the first upwards, both
for good; insertion sort marks where the inserted value rests. Each leaves one mark for every value but
one. -/
theorem Algorithm.trace_marks (values : List Int64) :
    (∀ a : Algorithm, (a.trace values).count .sorted = values.length - 1) ∧
    ∀ k, 1 ≤ k → k < values.length →
      (∃ step, MarksFinal (bubble.trace values) (ascending values) k step (values.length - k)) ∧
      (∃ step, MarksFinal (selection.trace values) (ascending values) k step (k - 1)) ∧
      ∃ step p, MarksRest (insertion.trace values) values k step p := by
  obtain ⟨bubbles, bubbled⟩ := bubbleSort_passesThrough values
  obtain ⟨selects, selected⟩ := selectionSort_passesThrough values
  have inserts := insertionSort_passesThrough values
  have sorts (a : Algorithm) := a.sort_sorts values (.start values) (.start values)
  have bubbleTrace := congrArg Recorder.finish bubbled
  have selectionTrace := congrArg Recorder.finish selected
  refine ⟨fun a => ?_, fun k low high => ?_⟩
  · cases a with
    | bubble => exact (congrArg (Trace.count · .sorted) bubbleTrace).symm.trans bubbles.count_sorted
    | selection =>
      exact (congrArg (Trace.count · .sorted) selectionTrace).symm.trans selects.count_sorted
    | insertion => exact inserts.count_sorted
  · obtain ⟨k, rfl⟩ : ∃ j, k = j + 1 := ⟨k - 1, by omega⟩
    refine ⟨?_, ?_, marksRest values high⟩
    · obtain ⟨step, marks⟩ := marksFinal bubbles (bubbled ▸ sorts .bubble) (k := k) (by omega)
        (by omega) fun j later inside => by omega
      rw [bubbleTrace, show values.length - 1 - k = values.length - (k + 1) by omega] at marks
      exact ⟨step, marks⟩
    · obtain ⟨step, marks⟩ := marksFinal selects (selected ▸ sorts .selection) (k := k) (by omega)
        (by simp only [id]; omega) fun j later inside => by simp only [id]; omega
      rw [selectionTrace] at marks
      exact ⟨step, marks⟩

/-- Of two equal values the one that is inserted later rests behind the other. -/
theorem Algorithm.trace_marks_tie :
    1 ≤ 2 ∧ 2 < ([7, 1, 7] : List Int64).length ∧
      (∃ step, MarksFinal (bubble.trace [7, 1, 7]) (ascending [7, 1, 7]) 2 step 1) ∧
      (∃ step, MarksFinal (selection.trace [7, 1, 7]) (ascending [7, 1, 7]) 2 step 1) ∧
      ∃ step, MarksRest (insertion.trace [7, 1, 7]) [7, 1, 7] 2 step 2 := by
  obtain ⟨bubbles, selects, step, p, rests⟩ :=
    (trace_marks [7, 1, 7]).2 2 (by decide) (by decide)
  obtain ⟨key, here, counted, -⟩ := rests.rest
  cases here
  rw [show List.countP _ _ = 2 by decide] at counted
  exact ⟨by decide, by decide, bubbles, selects, step, counted ▸ rests⟩

end SortTrace.Sorting
