import SortTrace.Proofs.Synthesis.SetsRun

/-!
Single iterations of the loops of a dry run: what each is made of, what it leaves alone, and what a run
that succeeds keeps because each of its iterations keeps it.
-/

namespace SortTrace.Synthesis

namespace DryRun

variable (s : DryRun)

theorem perform_steps (a : Action) : (s.perform a).steps = s.steps := by
  cases a with
  | tell n => rfl
  | compare i j => exact s.tellOutside_steps [i, j]
  | swap i j => exact s.tellOutside_steps [i, j]
  | set i value => exact s.tellOutside_steps [i]

theorem performAll_steps (actions : List Action) : (s.performAll actions).steps = s.steps := by
  induction actions generalizing s with
  | nil => rfl
  | cons a rest ih => exact (ih (s.perform a)).trans (s.perform_steps a)

theorem performAll_size (actions : List Action) :
    (s.performAll actions).recorder.size = s.recorder.size := by
  obtain ⟨_, -, size⟩ := (s.performAll_reaches actions).grown
  exact size

theorem visitPair_steps (guard : Guard) (j : Int64) : (s.visitPair guard j).steps = s.steps := by
  unfold visitPair
  split
  · rfl
  · exact s.tellOutside_steps _

theorem visitPair_size (guard : Guard) (j : Int64) :
    (s.visitPair guard j).recorder.size = s.recorder.size := by
  obtain ⟨_, -, size⟩ := (s.visitPair_reaches guard j).grown
  exact size

theorem finishPass_steps (loops : NestedLoops) (stop : Int64) :
    (s.finishPass loops stop).steps = s.steps := by
  unfold finishPass
  split
  · exact (s.markSorted_keeps _).2
  · rfl

theorem finishPass_size (loops : NestedLoops) (stop : Int64) :
    (s.finishPass loops stop).recorder.size = s.recorder.size := by
  obtain ⟨_, -, size⟩ := (s.finishPass_reaches loops stop).grown
  exact size

theorem announce_size (config : Config) (label : String) (range : LoopRange) :
    (s.announce config label range).recorder.size = s.recorder.size := by
  obtain ⟨_, -, size⟩ := (s.announce_reaches config label range).grown
  exact size

theorem performAll_tells {body : List Action} (quiet : ∀ a ∈ body, ∃ n, a = .tell n) :
    (s.performAll body).recorder = s.recorder := by
  induction body generalizing s with
  | nil => rfl
  | cons a rest ih =>
    obtain ⟨n, rfl⟩ := quiet a (List.mem_cons_self ..)
    exact ih (s.tell n) fun b member => quiet b (List.mem_cons_of_mem _ member)

theorem visitPair_negative (guard : Guard) {j : Int64} (negative : j.toInt < 0) :
    (s.visitPair guard j).recorder = s.recorder := by
  rw [visitPair, if_pos (Int64.lt_iff_toInt_lt.mpr negative)]
  rfl

theorem visitPair_natural (guard : Guard) {j : Int64} (natural : 0 ≤ j.toInt) :
    (s.visitPair guard j).recorder =
      s.recorder.exchangeIf guard.asks j.toInt.toNat (j.toInt.toNat + 1) := by
  have inside : ¬ j < 0 := fun less => by
    have negative := Int64.lt_iff_toInt_lt.mp less
    rw [Int64.toInt_zero] at negative
    omega
  rw [visitPair, if_neg inside]
  simp only [tellOutside_recorder]

def visit (loops : NestedLoops) (body : List Action) (i j : Int64) : DryRun :=
  ((s.tell (.nestedIteration i j)).visitPair loops.guard j).performAll body

theorem visit_steps (loops : NestedLoops) (body : List Action) (i j : Int64) :
    (s.visit loops body i j).steps = s.steps :=
  (performAll_steps _ body).trans (visitPair_steps _ loops.guard j)

theorem visit_size (loops : NestedLoops) (body : List Action) (i j : Int64) :
    (s.visit loops body i j).recorder.size = s.recorder.size :=
  (performAll_size _ body).trans (visitPair_size _ loops.guard j)

/-- The inner loop of one pass with its mark, or the notice that it is skipped. -/
def runMiddle (config : Config) (loops : NestedLoops) (body : List Action) (i : Int64) :
    Except DryRun DryRun :=
  match loops.innerStop.value? (Int64.ofNat s.recorder.size) i with
  | some stop => s.runInner config loops body i stop >>= fun t => pure (t.finishPass loops stop)
  | none => pure (s.tell (.skippedInnerLoop i))

variable (config : Config) (loops : NestedLoops) (body : List Action)

theorem runInner_eq (i stop : Int64) : s.runInner config loops body i stop =
    iterate (fun j s => s.countStep config.maxSteps >>= fun s => pure (s.visit loops body i j))
      (rangeCount loops.inner.start stop) loops.inner.start
      (s.announce config "inner" { loops.inner with stop := stop }) := rfl

theorem runPass_eq (around : Surroundings) (i : Int64) : s.runPass config loops around body i =
    s.countStep config.maxSteps >>= fun s =>
      (s.performAll around.before).runMiddle config loops body i >>= fun s =>
        pure (s.performAll around.after) := by
  unfold runPass runMiddle
  cases s.countStep config.maxSteps with
  | error t => rfl
  | ok t =>
    simp only [bind, Except.bind, pure, Except.pure]
    cases loops.innerStop.value? (Int64.ofNat (t.performAll around.before).recorder.size) i with
    | none => rfl
    | some stop =>
      dsimp only
      cases (t.performAll around.before).runInner config loops body i stop <;> rfl

end DryRun

theorem toInt_succ {i : Int64} (room : i.toInt + 1 < 2 ^ 63) : (i + 1).toInt = i.toInt + 1 := by
  have low := i.le_toInt
  rw [Int64.toInt_add, Int64.toInt_one]
  exact Int.bmod_eq_of_le (by omega) (by omega)

theorem iterate_keeps {σ : Type} {body : Int64 → σ → Except σ σ} (R : Int → σ → Prop)
    {count : Nat} {i : Int64} {s t : σ} (room : i.toInt + count < 2 ^ 63) (first : R i.toInt s)
    (step : ∀ k s t, i.toInt ≤ k.toInt → k.toInt < i.toInt + count → R k.toInt s →
      body k s = .ok t → R (k.toInt + 1) t)
    (ran : iterate body count i s = .ok t) : R (i.toInt + count) t := by
  induction count generalizing i s with
  | zero =>
    cases ran
    rwa [Int.natCast_zero, Int.add_zero]
  | succ count ih =>
    rw [iterate] at ran
    split at ran
    · rename_i u once
      have next : (i + 1).toInt = i.toInt + 1 := toInt_succ (by omega)
      have moved := step i s u (Int.le_refl _) (by omega) first once
      rw [← next] at moved
      have done := ih (by omega) moved (fun k s t low high => step k s t (by omega) (by omega)) ran
      rwa [show i.toInt + (count + 1 : Nat) = (i + 1).toInt + count by omega]
    · cases ran

theorem iterate_range {σ : Type} {body : Int64 → σ → Except σ σ} (R : Int → σ → Prop)
    {start stop : Int64} {s t : σ} (first : R start.toInt s)
    (step : ∀ k s t, start.toInt ≤ k.toInt → k.toInt < stop.toInt → R k.toInt s →
      body k s = .ok t → R (k.toInt + 1) t)
    (ran : iterate body (rangeCount start stop) start s = .ok t) :
    R (max start.toInt stop.toInt) t := by
  have low := start.toInt_lt
  have high := stop.toInt_lt
  have count : start.toInt + rangeCount start stop = max start.toInt stop.toInt := by
    rw [rangeCount]
    omega
  rw [← count]
  exact iterate_keeps R (by omega) first (fun k s t below above => step k s t below (by omega)) ran

end SortTrace.Synthesis
