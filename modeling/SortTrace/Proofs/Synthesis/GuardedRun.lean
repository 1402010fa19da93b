import SortTrace.Proofs.Synthesis.BareRun
import SortTrace.Proofs.Synthesis.GuardedPlan
import SortTrace.Proofs.Synthesis.Iteration

/-!
The dry run of a script that sorts neighbours: it sweeps over the array pass by pass, and the
iterations it needs are known beforehand.
-/

namespace SortTrace.Synthesis

open Script Sorting

/-- The iterations of the last passes: each counts itself and the pairs it visits. -/
def iterations : Nat → Nat
  | 0 => 0
  | passes + 1 => iterations passes + 1 + (passes + 1)

theorem iterations_eq (last : Nat) : iterations last = last + (last + 1) * last / 2 := by
  have double : 2 * iterations last = 2 * last + (last + 1) * last := by
    induction last with
    | zero => rfl
    | succ last ih =>
      have next : (last + 1 + 1) * (last + 1) = (last + 1) * last + 2 * (last + 1) := by
        simp only [Nat.add_mul, Nat.mul_add]
        omega
      rw [iterations, next]
      omega
  omega

theorem iterations_le {count limit : Nat} (positive : 0 < count)
    (room : (count - 1) + count * (count - 1) / 2 ≤ limit) : iterations (count - 1) ≤ limit := by
  have whole := iterations_eq (count - 1)
  rw [Nat.sub_add_cancel positive] at whole
  omega

namespace GuardedScript

variable (b : GuardedScript) (config : Config) (length : Int64)

def sayInner (stop : Nat) : Recorder → Recorder :=
  DryRun.announced config "inner" ⟨some b.inner.name, 0, Int64.ofNat stop⟩

theorem sayInner_comments (stop : Nat) : Comments (b.sayInner config stop) :=
  DryRun.announced_comments _ _ _

theorem runInner_sweep (s : DryRun) (i : Int64) (count : Nat) (bound : count < 2 ^ 63)
    (room : s.steps + count ≤ config.maxSteps) :
    ∃ t, s.runInner config (b.loops length) [] i (Int64.ofNat count) = .ok t ∧
      t.recorder = sweep b.relation.holds (b.sayInner config count s.recorder) count ∧
      t.steps = s.steps + count := by
  obtain ⟨told, kept⟩ := s.announce_keeps config "inner"
    { (b.loops length).inner with stop := Int64.ofNat count }
  let Visited (j : Nat) (t : DryRun) : Prop :=
    t.recorder = sweep b.relation.holds (b.sayInner config count s.recorder) j ∧
      t.steps = s.steps + j
  have range : rangeCount (b.loops length).inner.start (Int64.ofNat count) = count :=
    rangeCount_ofNat bound
  unfold DryRun.runInner
  rw [range]
  apply iterate_invariant Visited count ⟨told, kept⟩
  rintro j t below ⟨recorder, steps⟩
  rw [DryRun.countStep_room (by omega)]
  have visited := DryRun.visitPair_ofNat
    (({ t with steps := t.steps + 1 } : DryRun).tell (.nestedIteration i (Int64.ofNat j)))
    (b.loops length).guard (show j < 2 ^ 63 by omega)
  refine ⟨_, rfl, ?_, ?_⟩
  · rw [sweep_succ, ← recorder]
    exact visited.1
  · have kept := visited.2
    simp only [DryRun.tell] at kept
    exact kept.trans (by omega)

theorem finishPass_ofNat (s : DryRun) {stop : Nat} (bound : stop < 2 ^ 63) :
    (s.finishPass (b.loops length) (Int64.ofNat stop)).recorder = (s.recorder.sorted [stop]).1 ∧
      (s.finishPass (b.loops length) (Int64.ofNat stop)).steps = s.steps := by
  have nonneg : 0 ≤ Int64.ofNat stop := Int64.not_lt.mp (ofNat_nonneg bound)
  have conditional : (b.loops length).guard.isConditional = true := rfl
  have shrinks : (b.loops length).innerStop = .shrinks := rfl
  have marks : s.finishPass (b.loops length) (Int64.ofNat stop) = s.markSorted stop := by
    rw [DryRun.finishPass, toNat_ofNat bound, if_pos]
    simp [conditional, shrinks, nonneg]
  rw [marks]
  exact s.markSorted_keeps stop

theorem runPass_sweep (s : DryRun) (around : Surroundings) (before : around.before = [])
    (after : around.after = []) {i : Nat} (inside : i < s.recorder.size)
    (bound : s.recorder.size < 2 ^ 63)
    (room : s.steps + 1 + (s.recorder.size - 1 - i) ≤ config.maxSteps) :
    ∃ t, s.runPass config (b.loops length) around [] (Int64.ofNat i) = .ok t ∧
      t.recorder = ((sweep b.relation.holds
        (b.sayInner config (s.recorder.size - 1 - i) s.recorder)
        (s.recorder.size - 1 - i)).sorted [s.recorder.size - 1 - i]).1 ∧
      t.steps = s.steps + 1 + (s.recorder.size - 1 - i) := by
  have stop := shrinks_value? inside bound
  have small : s.recorder.size - 1 - i < 2 ^ 63 := by omega
  obtain ⟨t, run, recorder, steps⟩ := b.runInner_sweep config length
    { s with steps := s.steps + 1 } (Int64.ofNat i) (s.recorder.size - 1 - i) small room
  obtain ⟨marked, kept⟩ := b.finishPass_ofNat length t small
  have shrinks : (b.loops length).innerStop = .shrinks := rfl
  refine ⟨t.finishPass (b.loops length) (Int64.ofNat (s.recorder.size - 1 - i)), ?_, ?_, ?_⟩
  · simp only [DryRun.runPass, DryRun.countStep_room (show s.steps < config.maxSteps by omega),
      before, after, shrinks]
    simp [DryRun.performAll, stop, run, Bind.bind, Except.bind, Pure.pure, Except.pure]
  · rw [marked, recorder]
  · rw [kept, steps]

def sayOuter (last : Nat) : Recorder → Recorder :=
  DryRun.announced config "outer" ⟨some b.outer.name, 0, Int64.ofNat last⟩

theorem sayOuter_comments (last : Nat) : Comments (b.sayOuter config last) :=
  DryRun.announced_comments _ _ _

def sorting (relation : Relation) (r : Recorder) : Recorder :=
  sweeps (fun i => b.sayInner config (r.size - 1 - i)) relation.holds
    (b.sayOuter config (r.size - 1) r) (r.size - 1) (r.size - 1)

theorem runNested_sweeps (s : DryRun) (around : Surroundings) (before : around.before = [])
    (after : around.after = []) (fresh : s.steps = 0) {last : Nat}
    (size : s.recorder.size = last + 1) (bound : last + 1 < 2 ^ 63)
    (room : iterations last ≤ config.maxSteps) :
    ∃ t, s.runNested config (b.loops (Int64.ofNat (last + 1))) around [] = .ok t ∧
      t.recorder = b.sorting config b.relation s.recorder := by
  let loops := b.loops (Int64.ofNat (last + 1))
  let say (i : Nat) : Recorder → Recorder := b.sayInner config (last - i)
  let said : Recorder := b.sayOuter config last s.recorder
  -- The iterations counted so far and those of the passes to come are all there are, so each pass
  -- finds room for its own.
  let Passed (i : Nat) (t : DryRun) : Prop :=
    t.recorder = sweeps say b.relation.holds said last i ∧
      t.steps + iterations (last - i) = iterations last
  have comments (i : Nat) : Comments (say i) := b.sayInner_comments config (last - i)
  have saidSize : said.size = last + 1 := by
    rw [← size]
    exact congrArg List.length ((b.sayOuter_comments config last).array_eq s.recorder)
  have stop : loops.outer.stop = Int64.ofNat last := ofNat_pred (Nat.succ_pos last)
  have outer : loops.outer = ⟨some b.outer.name, 0, Int64.ofNat last⟩ := by rw [← stop]; rfl
  have start : Passed 0 ((s.tellAll around.notices).announce config "outer" loops.outer) := by
    obtain ⟨recorder, steps⟩ := s.tellAll_keeps around.notices
    obtain ⟨told, kept⟩ := (s.tellAll around.notices).announce_keeps config "outer" loops.outer
    refine ⟨?_, ?_⟩
    · rw [told, recorder, outer]
      rfl
    · rw [kept, steps, fresh, Nat.zero_add, Nat.sub_zero]
  have pass : ∀ i t, i < last → Passed i t →
      ∃ t', t.runPass config loops around [] (Int64.ofNat i) = .ok t' ∧ Passed (i + 1) t' := by
    rintro i t below ⟨same, steps⟩
    have kept : t.recorder.size = last + 1 := by rw [same, sweeps_size _ _ _ comments, saidSize]
    have left : last - i = last - (i + 1) + 1 := by omega
    rw [left, iterations] at steps
    obtain ⟨t', run, passed, counted⟩ := b.runPass_sweep config (Int64.ofNat (last + 1)) t around
      before after (show i < t.recorder.size by omega) (by omega) (by omega)
    refine ⟨t', run, ?_, ?_⟩
    · rw [passed, kept, same, sweeps_succ]
      rfl
    · omega
  obtain ⟨t, run, passed, -⟩ := @iterate_invariant DryRun
    (fun i s => s.runPass config loops around [] i) Passed last _ start pass
  have range : rangeCount loops.outer.start loops.outer.stop = last := by
    rw [stop]
    exact rangeCount_ofNat (by omega)
  refine ⟨t, ?_, ?_⟩
  · rw [DryRun.runNested, range]
    exact run
  · rw [passed, sorting, size]
    rfl

theorem run_sweeps (s : DryRun) (policy : IndexPolicy) (fresh : s.steps = 0) {last : Nat}
    (size : s.recorder.size = last + 1) (bound : last + 1 < 2 ^ 63)
    (room : iterations last ≤ config.maxSteps) :
    ∃ t, s.run config (b.watch policy) b.tree (.nested (b.loops (Int64.ofNat (last + 1)))) =
        .ok t ∧ t.recorder = b.sorting config b.relation s.recorder := by
  obtain ⟨before, after⟩ := b.surroundings_tree (b.watch policy)
  obtain ⟨beforeInner, afterInner⟩ := b.surroundings_outer (b.watch policy)
  obtain ⟨recorder, steps⟩ :=
    s.tellAll_keeps ((b.watch policy).surroundings b.tree.outline).notices
  rw [← recorder] at size ⊢
  obtain ⟨t, run, sorted⟩ := b.runNested_sweeps config _
    ((b.watch policy).surroundings b.outerLoop.body.outline) beforeInner afterInner
    (steps.trans fresh) size bound room
  have outerLoop : (b.loops (Int64.ofNat (last + 1))).outerLoop = b.outerLoop := rfl
  have innerLoop : (b.loops (Int64.ofNat (last + 1))).innerLoop = b.innerLoop := rfl
  refine ⟨t, ?_, sorted⟩
  simp only [DryRun.run, outerLoop, innerLoop, before, after, b.bodyActions_inner,
    DryRun.performAll, List.foldl_nil, run, bind, Except.bind, pure, Except.pure]

theorem traceOf_tree (nonempty : b.literals ≠ []) (bound : b.literals.length < 2 ^ 63)
    (room : iterations (b.literals.length - 1) ≤ config.maxSteps) :
    (traceOf config b.tree ⟨b.array.name, b.values⟩).result =
      .ok (b.sorting config b.relation (.start b.values)).finish := by
  have positive : 0 < b.literals.length := List.length_pos_iff.mpr nonempty
  obtain ⟨last, length⟩ : ∃ last, b.literals.length = last + 1 :=
    ⟨b.literals.length - 1, by omega⟩
  have count : b.values.length = last + 1 := by rw [values, List.length_map, length]
  rw [length, Nat.add_sub_cancel] at room
  have plan := b.plan_tree config.indexPolicy (last + 1)
  obtain ⟨t, run, sorted⟩ := b.run_sweeps config
    { recorder := .start b.values
      notices := #[.discoveredArray b.array.name (last + 1),
        .classifiedLoops (LoopPlan.nested (b.loops (Int64.ofNat (last + 1)))).name] }
    config.indexPolicy rfl count (by omega) room
  rw [watch] at plan run
  simp only [traceOf, count, plan, run, sorted]

/-- A text with the tokens of the script has the trace of its sweeps, if the limit lets its
iterations through. Which neighbour stands on which side of the condition does not enter. -/
theorem synthesize_tokens {text : String}
    (spelled : spelling text = .ok (b.tokens ++ [TokenKind.eof])) (nonempty : b.literals ≠ [])
    (bound : b.literals.length < 2 ^ 63)
    (room : iterations (b.literals.length - 1) ≤ config.maxSteps) :
    (synthesize config text).result =
      .ok (b.sorting config b.relation (.start b.values)).finish := by
  obtain ⟨p, read, same⟩ := Program.ofText_spelled spelled b.reads_tree b.noArrow_text
  have bare : p.bare = b.tree.bare := same
  have tracked : TrackedArray.ofProgram p = .ok ⟨b.array.name, b.values⟩ := by
    rw [← TrackedArray.ofProgram_bare, bare, TrackedArray.ofProgram_bare]
    exact b.tracked nonempty
  have traced : traceOf config p ⟨b.array.name, b.values⟩ =
      traceOf config b.tree ⟨b.array.name, b.values⟩ := by
    rw [← traceOf_bare, bare, traceOf_bare]
  simp only [synthesize, read, tracked, traced]
  exact b.traceOf_tree config nonempty bound room

end GuardedScript

end SortTrace.Synthesis
