import SortTrace.Proofs.Sorting.Sweep
import SortTrace.Synthesis.DryRun

/-!
Loops of a dry run whose bounds are natural numbers below the limits of 64 bits: nothing wraps
around, and what each iteration keeps, the whole loop keeps.
-/

namespace SortTrace.Synthesis

theorem ofNat_pred {n : Nat} (positive : 0 < n) : Int64.ofNat n - 1 = Int64.ofNat (n - 1) := by
  rw [Int64.ofNat_sub n 1 positive]
  rfl

theorem toNat_ofNat {n : Nat} (bound : n < 2 ^ 63) : (Int64.ofNat n).toInt.toNat = n := by
  rw [Int64.toInt_ofNat_of_lt bound, Int.toNat_natCast]

theorem ofNat_nonneg {n : Nat} (bound : n < 2 ^ 63) : ¬ Int64.ofNat n < 0 := by
  rw [Int64.lt_iff_toInt_lt, Int64.toInt_ofNat_of_lt bound, Int64.toInt_zero]
  omega

theorem rangeCount_ofNat {n : Nat} (bound : n < 2 ^ 63) : rangeCount 0 (Int64.ofNat n) = n := by
  have value := Int64.toInt_ofNat_of_lt bound
  rw [rangeCount, value]
  simp

theorem exactSub?_ofNat {m n : Nat} (below : m ≤ n) (bound : n < 2 ^ 63) :
    exactSub? (Int64.ofNat n) (Int64.ofNat m) = some (Int64.ofNat (n - m)) := by
  have left := Int64.toInt_ofNat_of_lt bound
  have right := Int64.toInt_ofNat_of_lt (Nat.lt_of_le_of_lt below bound)
  have difference : (n : Int) - m = (n - m : Nat) := by omega
  have fits : -2 ^ 63 ≤ ((n - m : Nat) : Int) ∧ ((n - m : Nat) : Int) < 2 ^ 63 := by omega
  simp only [exactSub?, left, right, difference]
  rw [if_pos fits, Int64.ofInt_eq_ofNat]

theorem shrinks_value? {n i : Nat} (inside : i < n) (bound : n < 2 ^ 63) :
    InnerStop.shrinks.value? (Int64.ofNat n) (Int64.ofNat i) = some (Int64.ofNat (n - 1 - i)) := by
  have last : exactSub? (Int64.ofNat n) 1 = some (Int64.ofNat (n - 1)) :=
    exactSub?_ofNat (show 1 ≤ n by omega) bound
  have stop := exactSub?_ofNat (show i ≤ n - 1 by omega) (show n - 1 < 2 ^ 63 by omega)
  simp [InnerStop.value?, last, stop]

theorem iterate_from {σ : Type} {body : Int64 → σ → Except σ σ} (R : Nat → σ → Prop)
    (first count : Nat) {s : σ} (start : R first s)
    (step : ∀ k s, first ≤ k → k < first + count → R k s →
      ∃ t, body (Int64.ofNat k) s = .ok t ∧ R (k + 1) t) :
    ∃ t, iterate body count (Int64.ofNat first) s = .ok t ∧ R (first + count) t := by
  induction count generalizing first s with
  | zero => exact ⟨s, rfl, start⟩
  | succ count ih =>
    obtain ⟨t, once, next⟩ := step first s (Nat.le_refl first) (by omega) start
    obtain ⟨u, rest, done⟩ := ih (first + 1) next fun k s low high =>
      step k s (by omega) (by omega)
    have shift : Int64.ofNat first + 1 = Int64.ofNat (first + 1) := by
      rw [Int64.ofNat_add]
      rfl
    refine ⟨u, ?_, ?_⟩
    · simp only [iterate, once, shift]
      exact rest
    · rw [show first + (count + 1) = first + 1 + count by omega]
      exact done

theorem iterate_invariant {σ : Type} {body : Int64 → σ → Except σ σ} (R : Nat → σ → Prop)
    (count : Nat) {s : σ} (start : R 0 s)
    (step : ∀ k s, k < count → R k s → ∃ t, body (Int64.ofNat k) s = .ok t ∧ R (k + 1) t) :
    ∃ t, iterate body count 0 s = .ok t ∧ R count t := by
  obtain ⟨t, run, done⟩ := iterate_from R 0 count start fun k s _ high =>
    step k s (by omega)
  rw [Nat.zero_add] at done
  exact ⟨t, run, done⟩

namespace DryRun

theorem countStep_room {s : DryRun} {limit : Nat} (room : s.steps < limit) :
    s.countStep limit = .ok { s with steps := s.steps + 1 } := by
  have within : ¬ limit < s.steps + 1 := by omega
  simp [countStep, within]

def announced (config : Config) (label : String) (range : LoopRange) (r : Recorder) : Recorder :=
  (({ recorder := r } : DryRun).announce config label range).recorder

theorem announced_comments (config : Config) (label : String) (range : LoopRange) :
    Sorting.Comments (announced config label range) := by
  intro r
  unfold announced announce
  split
  · exact .inr ⟨_, rfl⟩
  · exact .inl rfl

theorem announce_quiet {config : Config} (quiet : config.loopComments = false) (s : DryRun)
    (label : String) (range : LoopRange) : s.announce config label range = s := by
  simp [announce, quiet]

theorem announced_quiet {config : Config} (quiet : config.loopComments = false)
    (label : String) (range : LoopRange) (r : Recorder) : announced config label range r = r := by
  rw [announced, announce_quiet quiet]

theorem announce_keeps (s : DryRun) (config : Config) (label : String) (range : LoopRange) :
    (s.announce config label range).recorder = announced config label range s.recorder ∧
      (s.announce config label range).steps = s.steps := by
  unfold announced announce
  split <;> exact ⟨rfl, rfl⟩

@[simp] theorem tellOutside_recorder (s : DryRun) (indices : List Nat) :
    (s.tellOutside indices).recorder = s.recorder := by
  unfold tellOutside
  split <;> rfl

@[simp] theorem tellOutside_steps (s : DryRun) (indices : List Nat) :
    (s.tellOutside indices).steps = s.steps := by
  unfold tellOutside
  split <;> rfl

theorem tellAll_keeps (s : DryRun) (ns : List Notice) :
    (s.tellAll ns).recorder = s.recorder ∧ (s.tellAll ns).steps = s.steps := by
  induction ns generalizing s with
  | nil => exact ⟨rfl, rfl⟩
  | cons n ns ih => exact ih (s.tell n)

theorem markSorted_keeps (s : DryRun) (i : Nat) :
    (s.markSorted i).recorder = (s.recorder.sorted [i]).1 ∧ (s.markSorted i).steps = s.steps := by
  simp [markSorted]

theorem visitPair_ofNat (s : DryRun) (guard : Guard) {j : Nat} (bound : j < 2 ^ 63) :
    (s.visitPair guard (Int64.ofNat j)).recorder =
        s.recorder.exchangeIf guard.asks j (j + 1) ∧
      (s.visitPair guard (Int64.ofNat j)).steps = s.steps := by
  rw [visitPair, if_neg (ofNat_nonneg bound), toNat_ofNat bound]
  simp

end DryRun

end SortTrace.Synthesis
