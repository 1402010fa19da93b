import SortTrace.Proofs.Sorting.Rearrangement

/-!
Sorting by sweeps: neighbours are compared from left to right and exchanged where a condition asks
for it. If the condition goes by a rank, a sweep moves a value of the highest rank to the end of its
range, so the positions behind the ranges are in order and hold nothing of a lower rank than what
stands before them.
-/

namespace SortTrace

namespace Sorting

open Recorder

def sweep (asked : Int64 → Int64 → Bool) (r : Recorder) (count : Nat) : Recorder :=
  (List.range count).foldl (fun r j => r.exchangeIf asked j (j + 1)) r

/-- Sweeps over shorter and shorter ranges of an array whose last position is `last`; something may
be said before each. -/
def sweeps (say : Nat → Recorder → Recorder) (asked : Int64 → Int64 → Bool) (r : Recorder)
    (last count : Nat) : Recorder :=
  (List.range count).foldl
    (fun r i => ((sweep asked (say i r) (last - i)).sorted [last - i]).1) r

variable (say : Nat → Recorder → Recorder) (asked : Int64 → Int64 → Bool) (r : Recorder)

theorem sweep_size (count : Nat) : (sweep asked r count).size = r.size :=
  foldl_range_invariant (fun _ s => s.size = r.size) _ count r rfl fun j s _ same => by
    rw [s.exchangeIf_size, same]

theorem sweep_succ (count : Nat) :
    sweep asked r (count + 1) = (sweep asked r count).exchangeIf asked count (count + 1) := by
  simp [sweep, List.range_succ]

theorem sweeps_succ (last count : Nat) :
    sweeps say asked r last (count + 1) =
      ((sweep asked (say count (sweeps say asked r last count)) (last - count)).sorted
        [last - count]).1 := by
  simp [sweeps, List.range_succ]

def Comments (say : Recorder → Recorder) : Prop :=
  ∀ r, say r = r ∨ ∃ message, say r = r.comment message

theorem Comments.array_eq {say : Recorder → Recorder} (comments : Comments say) (r : Recorder) :
    (say r).array = r.array := by
  rcases comments r with same | ⟨message, said⟩
  · rw [same]
  · rw [said]
    rfl

theorem Comments.rearranges {say : Recorder → Recorder} (comments : Comments say)
    {values : List Int64} {r : Recorder} (state : Rearranges values r) :
    Rearranges values (say r) := by
  rcases comments r with same | ⟨message, said⟩
  · rwa [same]
  · rw [said]
    exact state.handle (.comment message) (.refl _)

theorem sweeps_size (comments : ∀ i, Comments (say i)) (last count : Nat) :
    (sweeps say asked r last count).size = r.size := by
  induction count with
  | zero => rfl
  | succ count ih =>
    rw [sweeps_succ, Recorder.size, Recorder.sorted_array]
    refine (sweep_size asked _ _).trans ?_
    rw [Recorder.size, (comments count).array_eq]
    exact ih

/-- Neighbours are exchanged if the left one has the higher rank and not if the right one has; it
does not matter what happens to neighbours of one rank. -/
structure Ranks (rank : Int → Int) (asked : Int64 → Int64 → Bool) : Prop where
  exchanged : ∀ x y, asked x y = true → rank y.toInt ≤ rank x.toInt
  kept : ∀ x y, asked x y = false → rank x.toInt ≤ rank y.toInt

/-- From a position on, every value ranks at least as high as all those before it. -/
def SettledFrom (rank : Int → Int) (array : List Int64) (first : Nat) : Prop :=
  ∀ p q, p < q → first ≤ q → q < array.length → rank (valueAt array p) ≤ rank (valueAt array q)

def HighestFrom (rank : Int → Int) (array : List Int64) (first top : Nat) : Prop :=
  ∀ p, first ≤ p → p < top → rank (valueAt array p) ≤ rank (valueAt array top)

def HighestAt (rank : Int → Int) (array : List Int64) (top : Nat) : Prop :=
  ∀ p < top, rank (valueAt array p) ≤ rank (valueAt array top)

variable {rank : Int → Int} {array : List Int64}

theorem SettledFrom.exchange {first : Nat} (settled : SettledFrom rank array first) (i j : Nat)
    (beforeI : i < first) (beforeJ : j < first) (boundI : i < array.length)
    (boundJ : j < array.length) : SettledFrom rank (exchange array i j) first := by
  intro p q below behind bound
  rw [exchange_length] at bound
  rw [valueAt_exchange_other array i j q boundI boundJ (by omega) (by omega)]
  by_cases atI : p = i
  · rw [atI, valueAt_exchange_first array i j boundI boundJ]
    exact settled j q (by omega) behind bound
  by_cases atJ : p = j
  · rw [atJ, valueAt_exchange_second array i j boundI boundJ]
    exact settled i q (by omega) behind bound
  · rw [valueAt_exchange_other array i j p boundI boundJ atI atJ]
    exact settled p q below behind bound

theorem HighestFrom.exchange_next {first j : Nat} (highest : HighestFrom rank array first j)
    (bound : j + 1 < array.length)
    (lower : rank (valueAt array (j + 1)) ≤ rank (valueAt array j)) :
    HighestFrom rank (exchange array j (j + 1)) first (j + 1) := by
  intro p behind below
  rw [valueAt_exchange_second array j (j + 1) (by omega) bound]
  by_cases atJ : p = j
  · rw [atJ, valueAt_exchange_first array j (j + 1) (by omega) bound]
    exact lower
  · rw [valueAt_exchange_other array j (j + 1) p (by omega) bound atJ (by omega)]
    exact highest p behind (by omega)

theorem HighestFrom.next {first j : Nat} (highest : HighestFrom rank array first j)
    (ordered : rank (valueAt array j) ≤ rank (valueAt array (j + 1))) :
    HighestFrom rank array first (j + 1) := by
  intro p behind below
  rcases Nat.lt_succ_iff_lt_or_eq.mp below with below | rfl
  · exact Int.le_trans (highest p behind below) ordered
  · exact ordered

theorem highestAt_iff {top : Nat} : HighestAt rank array top ↔ HighestFrom rank array 0 top :=
  ⟨fun highest p _ => highest p, fun highest p => highest p (Nat.zero_le p)⟩

theorem HighestAt.exchange_next {j : Nat} (highest : HighestAt rank array j)
    (bound : j + 1 < array.length)
    (lower : rank (valueAt array (j + 1)) ≤ rank (valueAt array j)) :
    HighestAt rank (exchange array j (j + 1)) (j + 1) :=
  highestAt_iff.mpr ((highestAt_iff.mp highest).exchange_next bound lower)

theorem HighestAt.next {j : Nat} (highest : HighestAt rank array j)
    (ordered : rank (valueAt array j) ≤ rank (valueAt array (j + 1))) :
    HighestAt rank array (j + 1) :=
  highestAt_iff.mpr ((highestAt_iff.mp highest).next ordered)

/-- What holds inside a sweep: positions behind its range are settled, and a value of the highest
rank so far has moved along. -/
structure InSweep (rank : Int → Int) (values : List Int64) (first j : Nat) (r : Recorder) :
    Prop where
  state : Rearranges values r
  settled : SettledFrom rank r.array first
  highest : HighestAt rank r.array j

theorem InSweep.step {values : List Int64} {first j : Nat} {asked : Int64 → Int64 → Bool}
    {r : Recorder} (inside : InSweep rank values first j r) (ranks : Ranks rank asked)
    (range : j + 1 < first) (bound : first ≤ values.length) :
    InSweep rank values first (j + 1) (r.exchangeIf asked j (j + 1)) := by
  have size := inside.state.size_eq
  have length := inside.state.length_eq
  obtain ⟨x, y, atJ, atNext, result⟩ :=
    r.exchangeIf_inside asked j (j + 1) (by omega) (by omega)
  have left := valueAt_of_getElem? r.array j x atJ
  have right := valueAt_of_getElem? r.array (j + 1) y atNext
  rw [result]
  cases outcome : asked x y with
  | true =>
    have lower : rank (valueAt r.array (j + 1)) ≤ rank (valueAt r.array j) := by
      rw [left, right]
      exact ranks.exchanged x y outcome
    rw [if_pos rfl]
    refine ⟨(inside.state.compare j (j + 1)).swap j (j + 1), ?_, ?_⟩
    · rw [swap_array, compare_array]
      exact inside.settled.exchange j (j + 1) (by omega) range (by omega) (by omega)
    · rw [swap_array, compare_array]
      exact inside.highest.exchange_next (by omega) lower
  | false =>
    have higher : rank (valueAt r.array j) ≤ rank (valueAt r.array (j + 1)) := by
      rw [left, right]
      exact ranks.kept x y outcome
    rw [if_neg Bool.false_ne_true]
    refine ⟨inside.state.compare j (j + 1), ?_, ?_⟩
    · rw [compare_array]
      exact inside.settled
    · rw [compare_array]
      exact inside.highest.next higher

theorem sweep_settles {values : List Int64} {asked : Int64 → Int64 → Bool} {r : Recorder}
    (ranks : Ranks rank asked) (count : Nat) (state : Rearranges values r)
    (bound : count < values.length) (settled : SettledFrom rank r.array (count + 1)) :
    Rearranges values (sweep asked r count) ∧
      SettledFrom rank (sweep asked r count).array count := by
  have start : InSweep rank values (count + 1) 0 r := ⟨state, settled, nofun⟩
  have done : InSweep rank values (count + 1) count (sweep asked r count) :=
    foldl_range_invariant (InSweep rank values (count + 1)) _ count r start
      fun j r below inside => inside.step ranks (by omega) (by omega)
  refine ⟨done.state, ?_⟩
  intro p q below behind inArray
  rcases Nat.lt_or_ge count q with past | atEnd
  · exact done.settled p q below past inArray
  · obtain rfl : q = count := by omega
    exact done.highest p below

theorem sweeps_sort {values : List Int64} {say : Nat → Recorder → Recorder}
    {asked : Int64 → Int64 → Bool} {r : Recorder} (comments : ∀ i, Comments (say i))
    (ranks : Ranks rank asked) (state : Rearranges values r) {last : Nat}
    (whole : last = r.size - 1) :
    Rearranges values (sweeps say asked r last last) ∧
      ∀ p q, p < q → q < values.length →
        rank (valueAt (sweeps say asked r last last).array p) ≤
          rank (valueAt (sweeps say asked r last last).array q) := by
  have size := state.size_eq
  subst whole
  -- After `i` sweeps the last `i` positions are settled.
  let Settled (i : Nat) (r : Recorder) : Prop :=
    Rearranges values r ∧ SettledFrom rank r.array (values.length - i)
  have start : Settled 0 r := by
    refine ⟨state, ?_⟩
    intro p q below behind inArray
    rw [state.length_eq] at inArray
    omega
  have done : Settled (r.size - 1) (sweeps say asked r (r.size - 1) (r.size - 1)) := by
    apply foldl_range_invariant Settled _ (r.size - 1) r start
    rintro i s below ⟨state, settled⟩
    have range : r.size - 1 - i + 1 = values.length - i := by omega
    have said : SettledFrom rank (say i s).array (r.size - 1 - i + 1) := by
      rw [(comments i).array_eq, range]
      exact settled
    obtain ⟨passed, shorter⟩ :=
      sweep_settles ranks (r.size - 1 - i) ((comments i).rearranges state) (by omega) said
    refine ⟨passed.sorted [r.size - 1 - i], ?_⟩
    rw [sorted_array, show values.length - (i + 1) = r.size - 1 - i by omega]
    exact shorter
  refine ⟨done.1, fun p q below inArray => ?_⟩
  exact done.2 p q below (by omega) (by rw [done.1.length_eq]; exact inArray)

end Sorting

namespace Relation

open Sorting

def Ascends (r : Relation) : Prop := Ranks id r.holds

def Descends (r : Relation) : Prop := Ranks Neg.neg r.holds

theorem ascends_gt : Ascends gt :=
  { exchanged := fun _ _ above => Int.le_of_lt (Int64.lt_iff_toInt_lt.mp (of_decide_eq_true above))
    kept := fun _ _ other =>
      Int64.le_iff_toInt_le.mp (Int64.not_lt.mp (of_decide_eq_false other)) }

theorem ascends_ge : Ascends ge :=
  { exchanged := fun _ _ above => Int64.le_iff_toInt_le.mp (of_decide_eq_true above)
    kept := fun _ _ other =>
      Int.le_of_lt (Int64.lt_iff_toInt_lt.mp (Int64.not_le.mp (of_decide_eq_false other))) }

end Relation

namespace Sorting

open Recorder

def AllEqual (values : List Int64) : Prop := ∀ x ∈ values, ∀ y ∈ values, x = y

theorem AllEqual.perm {values others : List Int64} (equal : AllEqual values)
    (perm : others.Perm values) : AllEqual others := fun x memberX y memberY =>
  equal x (perm.mem_iff.mp memberX) y (perm.mem_iff.mp memberY)

variable (say : Nat → Recorder → Recorder) (asked : Int64 → Int64 → Bool)
  {other : Int64 → Int64 → Bool} {r : Recorder}

theorem exchangeIf_allEqual (same : ∀ x, asked x x = other x x) (equal : AllEqual r.array)
    (i j : Nat) :
    r.exchangeIf asked i j = r.exchangeIf other i j ∧
      AllEqual (r.exchangeIf asked i j).array := by
  unfold Recorder.exchangeIf
  cases atI : r.array[i]? with
  | none =>
    have refused : r.compare i j = (r, none) := by simp [Recorder.compare, atI]
    rw [refused]
    exact ⟨rfl, equal⟩
  | some x =>
    cases atJ : r.array[j]? with
    | none =>
      have refused : r.compare i j = (r, none) := by simp [Recorder.compare, atI, atJ]
      rw [refused]
      exact ⟨rfl, equal⟩
    | some y =>
      have seen : r.compare i j = (r.note (.compare i j x y), some (x, y)) := by
        simp [Recorder.compare, atI, atJ]
      obtain rfl : x = y :=
        equal x (List.mem_of_getElem? atI) y (List.mem_of_getElem? atJ)
      rw [seen]
      refine ⟨by simp only [same], ?_⟩
      show AllEqual (if asked x x = true then
        ((r.note (.compare i j x x)).swap i j).1 else r.note (.compare i j x x)).array
      split
      · rw [swap_array]
        exact equal.perm (exchange_perm r.array i j)
      · exact equal

theorem sweep_allEqual (same : ∀ x, asked x x = other x x) (equal : AllEqual r.array)
    (count : Nat) :
    sweep asked r count = sweep other r count ∧ AllEqual (sweep asked r count).array := by
  induction count with
  | zero => exact ⟨rfl, equal⟩
  | succ count ih =>
    obtain ⟨swept, still⟩ := ih
    rw [sweep_succ, sweep_succ, ← swept]
    exact exchangeIf_allEqual asked same still count (count + 1)

theorem sweeps_allEqual (comments : ∀ i, Comments (say i)) (same : ∀ x, asked x x = other x x)
    (equal : AllEqual r.array) (last count : Nat) :
    sweeps say asked r last count = sweeps say other r last count ∧
      AllEqual (sweeps say asked r last count).array := by
  induction count with
  | zero => exact ⟨rfl, equal⟩
  | succ count ih =>
    obtain ⟨swept, still⟩ := ih
    rw [sweeps_succ, sweeps_succ, ← swept]
    have said : AllEqual (say count (sweeps say asked r last count)).array := by
      rw [(comments count).array_eq]
      exact still
    obtain ⟨once, after⟩ := sweep_allEqual asked same said (last - count)
    rw [sorted_array, once]
    exact ⟨rfl, once ▸ after⟩

theorem allEqual_of_sweeps_eq {values : List Int64} {up down : Relation}
    (comments : ∀ i, Comments (say i)) (ascends : up.Ascends) (descends : down.Descends)
    (state : Rearranges values r) {last : Nat} (whole : last = r.size - 1)
    (same : (sweeps say up.holds r last last).array = (sweeps say down.holds r last last).array) :
    AllEqual values := by
  obtain ⟨rearranged, ascending⟩ := sweeps_sort comments ascends state whole
  obtain ⟨-, descending⟩ := sweeps_sort comments descends state whole
  rw [← same] at descending
  generalize sweeps say up.holds r last last = done at *
  have equal : ∀ p q, p < q → q < values.length → valueAt done.array p = valueAt done.array q :=
    fun p q below bound =>
      have upwards := ascending p q below bound
      have downwards := Int.neg_le_neg_iff.mp (descending p q below bound)
      Int.le_antisymm upwards downwards
  have inside : AllEqual done.array := by
    intro x memberX y memberY
    obtain ⟨p, boundP, rfl⟩ := List.mem_iff_getElem.mp memberX
    obtain ⟨q, boundQ, rfl⟩ := List.mem_iff_getElem.mp memberY
    have left := valueAt_of_getElem? done.array p _ (List.getElem?_eq_getElem boundP)
    have right := valueAt_of_getElem? done.array q _ (List.getElem?_eq_getElem boundQ)
    rw [rearranged.length_eq] at boundP boundQ
    apply Int64.toInt_inj.mp
    rw [← left, ← right]
    rcases Nat.lt_trichotomy p q with below | rfl | above
    · exact equal p q below boundQ
    · rfl
    · exact (equal q p above boundP).symm
  exact inside.perm rearranged.perm.symm

end Sorting

end SortTrace
