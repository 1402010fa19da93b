import SortTrace.Proofs.Sorting.Sweep

/-!
Sweeps that go further than they need to. Among positions that are settled already a sweep changes nothing
that a rank could tell, so it settles one more position however far it goes.
-/

namespace SortTrace

namespace Recorder

variable (r : Recorder) (asked : Int64 → Int64 → Bool)

theorem exchangeIf_array (i j : Nat) : (r.exchangeIf asked i j).array =
    match r.array[i]?, r.array[j]? with
    | some x, some y => if asked x y then exchange r.array i j else r.array
    | _, _ => r.array := by
  unfold exchangeIf compare
  cases r.array[i]? with
  | none => rfl
  | some x =>
    cases r.array[j]? with
    | none => rfl
    | some y =>
      dsimp only
      split
      · exact swap_array _ i j
      · rfl

theorem exchangeIf_congr {r r' : Recorder} (same : r'.array = r.array) (i j : Nat) :
    (r'.exchangeIf asked i j).array = (r.exchangeIf asked i j).array := by
  rw [exchangeIf_array, exchangeIf_array, same]

theorem exchangeIf_outside {i j : Nat} (outside : r.size ≤ j) :
    (r.exchangeIf asked i j).array = r.array := by
  have missing : r.array[j]? = none := List.getElem?_eq_none outside
  rw [exchangeIf_array, missing]
  cases r.array[i]? <;> rfl

theorem exchangeIf_perm (i j : Nat) : (r.exchangeIf asked i j).array.Perm r.array := by
  rw [exchangeIf_array]
  split
  · split
    · exact exchange_perm r.array i j
    · exact .refl _
  · exact .refl _

end Recorder

namespace Sorting

open Recorder

variable (asked : Int64 → Int64 → Bool)

theorem sweep_array {r r' : Recorder} (same : r'.array = r.array) (count : Nat) :
    (sweep asked r' count).array = (sweep asked r count).array := by
  induction count with
  | zero => exact same
  | succ count ih =>
    rw [sweep_succ, sweep_succ]
    exact exchangeIf_congr asked ih count (count + 1)

theorem sweep_perm (r : Recorder) (count : Nat) : (sweep asked r count).array.Perm r.array := by
  induction count with
  | zero => exact .refl _
  | succ count ih =>
    rw [sweep_succ]
    exact (exchangeIf_perm _ asked count (count + 1)).trans ih

theorem sweep_never (r : Recorder) (count : Nat) :
    (sweep (fun _ _ => false) r count).array = r.array := by
  induction count with
  | zero => rfl
  | succ count ih =>
    rw [sweep_succ, exchangeIf_array, ih]
    split
    · exact if_neg Bool.false_ne_true
    · rfl

variable {asked} {rank : Int → Int} {r : Recorder}

theorem HighestFrom.exchangeIf {first j : Nat} (highest : HighestFrom rank r.array first j)
    (ranks : Ranks rank asked) (bound : j + 1 < r.size) :
    HighestFrom rank (r.exchangeIf asked j (j + 1)).array first (j + 1) := by
  obtain ⟨x, y, atJ, atNext, -⟩ := r.exchangeIf_inside asked j (j + 1) (Nat.lt_of_succ_lt bound) bound
  have left := valueAt_of_getElem? r.array j x atJ
  have right := valueAt_of_getElem? r.array (j + 1) y atNext
  rw [exchangeIf_array, atJ, atNext]
  dsimp only
  split
  · rename_i exchanged
    refine highest.exchange_next bound ?_
    rw [left, right]
    exact ranks.exchanged x y exchanged
  · rename_i kept
    refine highest.next ?_
    rw [left, right]
    exact ranks.kept x y (Bool.eq_false_iff.mpr kept)

theorem SettledFrom.congr {array array' : List Int64} {first : Nat}
    (settled : SettledFrom rank array first) (length : array'.length = array.length)
    (same : ∀ p, rank (valueAt array' p) = rank (valueAt array p)) :
    SettledFrom rank array' first := by
  intro p q below behind bound
  rw [same p, same q]
  exact settled p q below behind (length ▸ bound)

theorem SettledFrom.exchangeIf {first j : Nat} (settled : SettledFrom rank r.array first)
    (ranks : Ranks rank asked) (behind : first ≤ j + 1) (bound : j + 1 < r.size) :
    SettledFrom rank (r.exchangeIf asked j (j + 1)).array first := by
  have boundJ : j < r.array.length := Nat.lt_of_succ_lt bound
  obtain ⟨x, y, atJ, atNext, -⟩ := r.exchangeIf_inside asked j (j + 1) boundJ bound
  rw [exchangeIf_array, atJ, atNext]
  dsimp only
  split
  · rename_i exchanged
    have left := valueAt_of_getElem? r.array j x atJ
    have right := valueAt_of_getElem? r.array (j + 1) y atNext
    have ordered := settled j (j + 1) (Nat.lt_succ_self j) behind bound
    have lower := ranks.exchanged x y exchanged
    rw [← left, ← right] at lower
    refine settled.congr (exchange_length r.array j (j + 1)) fun p => ?_
    by_cases atFirst : p = j
    · rw [atFirst, valueAt_exchange_first r.array j (j + 1) boundJ bound]
      omega
    by_cases atSecond : p = j + 1
    · rw [atSecond, valueAt_exchange_second r.array j (j + 1) boundJ bound]
      omega
    · rw [valueAt_exchange_other r.array j (j + 1) p boundJ bound atFirst atSecond]
  · exact settled

theorem SettledFrom.sweep {first : Nat} (settled : SettledFrom rank r.array first)
    (ranks : Ranks rank asked) {count : Nat} (reaches : first ≤ count + 1) (bound : count < r.size) :
    SettledFrom rank (sweep asked r count).array (first - 1) := by
  induction count with
  | zero =>
    intro p q below behind inArray
    exact settled p q below (by omega) inArray
  | succ count ih =>
    rcases Nat.lt_or_ge (count + 1) first with short | long
    · -- The sweep ends where the settled positions begin.
      obtain rfl : first = count + 1 + 1 := by omega
      have state := Rearranges.start r.array
      obtain ⟨-, done⟩ := sweep_settles ranks (count + 1) state bound settled
      rwa [@sweep_array asked r (.start r.array) rfl] at done
    · rw [sweep_succ]
      have size := sweep_size asked r count
      exact (ih long (by omega)).exchangeIf ranks (by omega) (by omega)

theorem SettledFrom.ordered {array : List Int64} {first : Nat}
    (settled : SettledFrom rank array first) (few : first ≤ 1) (p q : Nat) (below : p < q)
    (bound : q < array.length) : rank (valueAt array p) ≤ rank (valueAt array q) :=
  settled p q below (by omega) bound

theorem pairwise_descending (array : List Int64)
    (descending : ∀ p q, p < q → q < array.length → -valueAt array p ≤ -valueAt array q) :
    array.Pairwise (fun x y => y ≤ x) := by
  rw [List.pairwise_iff_getElem]
  intro p q boundP boundQ below
  rw [Int64.le_iff_toInt_le]
  have ordered := Int.neg_le_neg_iff.mp (descending p q below boundQ)
  rwa [valueAt_of_getElem? array p _ (List.getElem?_eq_getElem boundP),
    valueAt_of_getElem? array q _ (List.getElem?_eq_getElem boundQ)] at ordered

end Sorting

end SortTrace
