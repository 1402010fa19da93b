import SortTrace.Proofs.Trace.Recording

/-!
Rearrangements: what the sorting algorithms do to an array is a number of exchanges. Values are
compared as integers, position by position, so that the invariants of loops are linear facts.
-/

namespace SortTrace

/-- The value at a position, 0 outside the array. -/
def valueAt (array : List Int64) (p : Nat) : Int := (array.getD p 0).toInt

theorem valueAt_of_getElem? (array : List Int64) (p : Nat) (x : Int64) (here : array[p]? = some x) :
    valueAt array p = x.toInt := by
  simp [valueAt, List.getD_eq_getElem?_getD, here]

theorem exchange_of_getElem? (array : List Int64) (i j : Nat) (x y : Int64)
    (atI : array[i]? = some x) (atJ : array[j]? = some y) :
    exchange array i j = (array.set i y).set j x := by
  simp [exchange, atI, atJ]

theorem exchange_perm (array : List Int64) (i j : Nat) : (exchange array i j).Perm array := by
  unfold exchange
  split
  · rename_i x y atI atJ
    obtain ⟨boundI, rfl⟩ := List.getElem?_eq_some_iff.mp atI
    obtain ⟨boundJ, rfl⟩ := List.getElem?_eq_some_iff.mp atJ
    exact List.set_set_perm boundI boundJ
  · exact List.Perm.refl array

theorem valueAt_exchange (array : List Int64) (i j p : Nat) (boundI : i < array.length)
    (boundJ : j < array.length) :
    valueAt (exchange array i j) p = valueAt array (if p = i then j else if p = j then i else p) := by
  have atI := List.getElem?_eq_getElem boundI
  have atJ := List.getElem?_eq_getElem boundJ
  rw [exchange_of_getElem? array i j _ _ atI atJ]
  simp only [valueAt, List.getD_eq_getElem?_getD, List.getElem?_set, List.length_set]
  by_cases first : p = i
  · by_cases second : p = j <;> grind
  · by_cases second : p = j <;> grind

theorem valueAt_exchange_first (array : List Int64) (i j : Nat) (boundI : i < array.length)
    (boundJ : j < array.length) : valueAt (exchange array i j) i = valueAt array j := by
  rw [valueAt_exchange array i j i boundI boundJ, if_pos rfl]

theorem valueAt_exchange_second (array : List Int64) (i j : Nat) (boundI : i < array.length)
    (boundJ : j < array.length) : valueAt (exchange array i j) j = valueAt array i := by
  rw [valueAt_exchange array i j j boundI boundJ, if_pos rfl]
  split
  · rename_i same
    rw [same]
  · rfl

theorem valueAt_exchange_other (array : List Int64) (i j p : Nat) (boundI : i < array.length)
    (boundJ : j < array.length) (notI : p ≠ i) (notJ : p ≠ j) :
    valueAt (exchange array i j) p = valueAt array p := by
  rw [valueAt_exchange array i j p boundI boundJ, if_neg notI, if_neg notJ]

theorem pairwise_of_valueAt (array : List Int64)
    (ascending : ∀ p q, p < q → q < array.length → valueAt array p ≤ valueAt array q) :
    array.Pairwise (· ≤ ·) := by
  rw [List.pairwise_iff_getElem]
  intro p q boundP boundQ below
  rw [Int64.le_iff_toInt_le]
  have ordered := ascending p q below boundQ
  rwa [valueAt_of_getElem? array p _ (List.getElem?_eq_getElem boundP),
    valueAt_of_getElem? array q _ (List.getElem?_eq_getElem boundQ)] at ordered

theorem foldl_range'_invariant {σ : Type} (P : Nat → σ → Prop) (f : σ → Nat → σ) (start count : Nat)
    (s : σ) (first : P start s)
    (step : ∀ i s, start ≤ i → i < start + count → P i s → P (i + 1) (f s i)) :
    P (start + count) ((List.range' start count).foldl f s) := by
  induction count generalizing start s with
  | zero => exact first
  | succ n ih =>
    have next := step start s (Nat.le_refl start) (by omega) first
    have rest := ih (start + 1) (f s start) next fun i s low high => step i s (by omega) (by omega)
    rw [show start + (n + 1) = start + 1 + n by omega]
    exact rest

theorem foldl_range_invariant {σ : Type} (P : Nat → σ → Prop) (f : σ → Nat → σ) (count : Nat)
    (s : σ) (first : P 0 s) (step : ∀ i s, i < count → P i s → P (i + 1) (f s i)) :
    P count ((List.range count).foldl f s) := by
  have whole := foldl_range'_invariant P f 0 count s first fun i s _ high => step i s (by omega)
  rw [Nat.zero_add] at whole
  rwa [List.range_eq_range']

namespace Recorder

structure Rearranges (values : List Int64) (r : Recorder) : Prop where
  faithful : ∃ inner, Faithful values inner r
  perm : r.array.Perm values

variable {values : List Int64} {r : Recorder}

theorem Rearranges.start (values : List Int64) : Rearranges values (.start values) :=
  ⟨⟨[], Faithful.start values⟩, List.Perm.refl values⟩

theorem Rearranges.length_eq (state : Rearranges values r) : r.array.length = values.length :=
  state.perm.length_eq

theorem Rearranges.size_eq (state : Rearranges values r) : r.size = values.length :=
  state.perm.length_eq

theorem Rearranges.handle (state : Rearranges values r) (q : Request)
    (kept : (r.handle q).1.array.Perm r.array) : Rearranges values (r.handle q).1 := by
  obtain ⟨inner, faithful⟩ := state.faithful
  obtain ⟨added, onward⟩ := faithful.handle q
  exact ⟨⟨inner ++ added, onward⟩, kept.trans state.perm⟩

theorem compare_inside (r : Recorder) (i j : Nat) (boundI : i < r.size) (boundJ : j < r.size) :
    ∃ x y, r.array[i]? = some x ∧ r.array[j]? = some y ∧
      r.compare i j = (r.note (.compare i j x y), some (x, y)) := by
  have atI := List.getElem?_eq_getElem boundI
  have atJ := List.getElem?_eq_getElem boundJ
  exact ⟨_, _, atI, atJ, by simp [compare, atI, atJ]⟩

theorem compare_array (r : Recorder) (i j : Nat) : (r.compare i j).1.array = r.array := by
  unfold compare
  split <;> rfl

theorem swap_array (r : Recorder) (i j : Nat) : (r.swap i j).1.array = exchange r.array i j := by
  cases atI : r.array[i]? <;> cases atJ : r.array[j]? <;> simp [swap, exchange, atI, atJ]

theorem highlight_array (r : Recorder) (indices : List Nat) (color : Color) :
    (r.highlight indices color).1.array = r.array := by
  unfold highlight
  split <;> rfl

theorem sorted_array (r : Recorder) (indices : List Nat) :
    (r.sorted indices).1.array = r.array := by
  unfold sorted
  split <;> rfl

theorem Rearranges.compare (state : Rearranges values r) (i j : Nat) :
    Rearranges values (r.compare i j).1 :=
  state.handle (.compare i j) (.of_eq (r.compare_array i j))

theorem Rearranges.swap (state : Rearranges values r) (i j : Nat) :
    Rearranges values (r.swap i j).1 :=
  state.handle (.swap i j) (by
    show (r.swap i j).1.array.Perm r.array
    rw [r.swap_array]
    exact exchange_perm r.array i j)

theorem Rearranges.highlight (state : Rearranges values r) (indices : List Nat) (color : Color) :
    Rearranges values (r.highlight indices color).1 :=
  state.handle (.highlight indices color) (.of_eq (r.highlight_array indices color))

theorem Rearranges.sorted (state : Rearranges values r) (indices : List Nat) :
    Rearranges values (r.sorted indices).1 :=
  state.handle (.sorted indices) (.of_eq (r.sorted_array indices))

theorem exchangeIf_inside (r : Recorder) (asked : Int64 → Int64 → Bool) (i j : Nat)
    (boundI : i < r.size) (boundJ : j < r.size) :
    ∃ x y, r.array[i]? = some x ∧ r.array[j]? = some y ∧
      r.exchangeIf asked i j =
        if asked x y then ((r.compare i j).1.swap i j).1 else (r.compare i j).1 := by
  obtain ⟨x, y, atI, atJ, looked⟩ := r.compare_inside i j boundI boundJ
  exact ⟨x, y, atI, atJ, by simp [exchangeIf, looked]⟩

theorem exchangeIf_size (r : Recorder) (asked : Int64 → Int64 → Bool) (i j : Nat) :
    (r.exchangeIf asked i j).size = r.size := by
  have looked : (r.compare i j).1.size = r.size := congrArg List.length (r.compare_array i j)
  unfold exchangeIf
  split
  · rename_i s x y found
    rw [found] at looked
    split
    · rw [size, s.swap_array, exchange_length]
      exact looked
    · exact looked
  · rename_i s found
    rw [found] at looked
    exact looked

end Recorder

end SortTrace
