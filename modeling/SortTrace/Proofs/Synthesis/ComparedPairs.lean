import SortTrace.Proofs.Synthesis.BubbleRun
import SortTrace.Proofs.Synthesis.ExchangeCount
import SortTrace.Proofs.Synthesis.Masked

/-!
Which pairs are compared. A script with two loops compares neighbours at places that its loops and the
length of its array determine, in the order of the iterations. Its whole schedule stays as it is when the
array starts with other numbers.
-/

namespace SortTrace.Synthesis

open Script

section

variable {config : Config} {p q : Program} {a b : TrackedArray} {s : DryRun}

theorem dryRun_ok_iff : (∃ s, dryRun config p a = .ok s) ↔
    (LoopPlan.ofProgram p ⟨a.name, config.indexPolicy⟩ a.values.length).steps a.values.length ≤
      config.maxSteps := by
  unfold dryRun
  dsimp only
  generalize LoopPlan.ofProgram p ⟨a.name, config.indexPolicy⟩ a.values.length = plan
  let start : DryRun :=
    { recorder := .start a.values
      notices := #[.discoveredArray a.name a.values.length, .classifiedLoops plan.name] }
  obtain ⟨t, metered⟩ := start.metered_run config ⟨a.name, config.indexPolicy⟩ p plan
  have cost : start.steps + plan.steps start.recorder.size = plan.steps a.values.length :=
    Nat.zero_add _
  constructor
  · rintro ⟨s, ran⟩
    refine Nat.not_lt.mp fun short => ?_
    obtain ⟨u, failed⟩ := metered.beyond config.maxSteps (Nat.zero_le _) (by rwa [cost])
    cases ran.symm.trans failed
  · intro room
    exact ⟨t, metered.within config.maxSteps (by rwa [cost])⟩

theorem dryRun_of_result {text : String} {t : Trace} (read : Program.ofText text = .ok p)
    (tracked : TrackedArray.ofProgram p = .ok a) (done : (synthesize config text).result = .ok t) :
    ∃ s, dryRun config p a = .ok s ∧ t = s.recorder.finish := by
  cases ran : dryRun config p a with
  | error s =>
    rw [synthesize_error read tracked ran] at done
    cases done
  | ok s =>
    rw [synthesize_ok read tracked ran] at done
    exact ⟨s, rfl, (Except.ok.inj done).symm⟩

theorem LoopPlan.steps_masked (plan : LoopPlan) (length : Nat) :
    plan.masked.steps length = plan.steps length := by
  cases plan <;> rfl

theorem tracked_of_masked (same : q.masked = p.masked) (tracked : TrackedArray.ofProgram p = .ok a) :
    ∃ b, TrackedArray.ofProgram q = .ok b ∧ b.name = a.name ∧ b.values.length = a.values.length := by
  have frames : (TrackedArray.ofProgram q).map TrackedArray.frame = .ok a.frame := by
    rw [← TrackedArray.ofProgram_masked, same, TrackedArray.ofProgram_masked, tracked]
    rfl
  cases found : TrackedArray.ofProgram q with
  | error why =>
    rw [found] at frames
    cases frames
  | ok b =>
    rw [found] at frames
    obtain ⟨name, length⟩ := Prod.mk.inj (Except.ok.inj frames)
    exact ⟨b, rfl, name, length⟩

theorem planned_of_masked {w : Watch} {length : Nat} {loops : NestedLoops}
    (same : q.masked = p.masked) (planned : LoopPlan.ofProgram p w length = .nested loops) :
    ∃ others, LoopPlan.ofProgram q w length = .nested others ∧ others.masked = loops.masked := by
  have plans : (LoopPlan.ofProgram q w length).masked = .nested loops.masked := by
    rw [← LoopPlan.ofProgram_masked, same, LoopPlan.ofProgram_masked, planned]
    rfl
  cases shape : LoopPlan.ofProgram q w length with
  | nested others =>
    rw [shape] at plans
    exact ⟨others, rfl, LoopPlan.nested.inj plans⟩
  | none | single l range =>
    rw [shape] at plans
    cases plans

theorem dryRun_of_masked {loops : NestedLoops} (same : q.masked = p.masked)
    (name : b.name = a.name) (length : b.values.length = a.values.length)
    (planned : LoopPlan.ofProgram p ⟨a.name, config.indexPolicy⟩ a.values.length = .nested loops)
    (ran : dryRun config p a = .ok s) :
    ∃ s', dryRun config q b = .ok s' ∧
      schedule s'.recorder.finish.events = schedule s.recorder.finish.events := by
  obtain ⟨others, planned', alike⟩ := planned_of_masked same planned
  have cost : (LoopPlan.nested others).steps a.values.length =
      (LoopPlan.nested loops).steps a.values.length := by
    rw [← LoopPlan.steps_masked, LoopPlan.masked, alike]
    rfl
  have room := dryRun_ok_iff.mp ⟨s, ran⟩
  rw [planned, ← cost, ← planned', ← name, ← length] at room
  obtain ⟨s', ran'⟩ := dryRun_ok_iff.mpr room
  refine ⟨s', ran', ?_⟩
  rw [← name, ← length] at planned'
  rw [schedule_of_dryRun planned ran, schedule_of_dryRun planned' ran', name, length,
    ← nestedSchedule_masked, alike, same, nestedSchedule_masked]

end

/-- The comparisons of a script with two loops: one for each value of the outer variable and each value of
the inner one in its pass that points at two neighbours inside the array, in lexicographic order. Any text
whose tree differs in nothing but spans and numbers that arrays start with has a trace, too, and the two
traces have the same kinds of events at the same positions, but for exchanges. -/
theorem synthesize_compares {config : Config} {text : String} {p : Program} {a : TrackedArray}
    {loops : NestedLoops} {t : Trace} (read : Program.ofText text = .ok p)
    (tracked : TrackedArray.ofProgram p = .ok a)
    (planned : LoopPlan.ofProgram p ⟨a.name, config.indexPolicy⟩ a.values.length = .nested loops)
    (done : (synthesize config text).result = .ok t) :
    (∃ pairs : List (Int64 × Int64), pairs.Pairwise (Prod.Lex (· < ·) (· < ·)) ∧
      (∀ i j, (i, j) ∈ pairs ↔ loops.outer.start ≤ i ∧ i < loops.outer.stop ∧
        ∃ stop, loops.innerStop.value? (Int64.ofNat a.values.length) i = some stop ∧
          loops.inner.start ≤ j ∧ j < stop ∧ 0 ≤ j ∧ j.toInt + 1 < a.values.length) ∧
      (t.events.filter fun e => e.kind = .compare).map Event.indices =
        pairs.map fun x => [x.2.toInt.toNat, x.2.toInt.toNat + 1]) ∧
    ∀ text' q, Program.ofText text' = .ok q → q.masked = p.masked →
      ∃ t', (synthesize config text').result = .ok t' ∧ schedule t'.events = schedule t.events := by
  obtain ⟨s, ran, rfl⟩ := dryRun_of_result read tracked done
  refine ⟨⟨loops.pairs a.values.length, loops.pairs_increasing _, fun i j => loops.mem_pairs _, ?_⟩,
    fun text' q read' same => ?_⟩
  · rw [← comparedAt_schedule, schedule_of_dryRun planned ran, comparedAt_nestedSchedule]
    rfl
  · obtain ⟨b, tracked', name, length⟩ := tracked_of_masked same tracked
    obtain ⟨s', ran', schedules⟩ := dryRun_of_masked same name length planned ran
    exact ⟨s'.recorder.finish, synthesize_ok read' tracked' ran', schedules⟩

def signOnly (negative : Bool) : Expr :=
  if negative then .unary .neg (.number .zero {}) {} else .number .zero {}

theorem zeroed_integer (v : Int) : (Expr.integer v).masked.zeroed = signOnly (v < 0) := by
  cases v with
  | ofNat n =>
    have natural : ¬ Int.ofNat n < 0 := Int.not_lt.mpr (Int.natCast_nonneg n)
    rw [decide_eq_false natural]
    rfl
  | negSucc n =>
    rw [decide_eq_true (Int.negSucc_lt_zero n)]
    rfl

namespace BubbleScript

def signs (b : BubbleScript) : List Bool := b.values.map fun v => decide (v.toInt < 0)

theorem zeroed_literals (b : BubbleScript) :
    (Expr.maskeds b.guarded.literals).map Expr.zeroed = b.signs.map signOnly := by
  rw [Expr.maskeds_eq_map, signs, guarded, List.map_map, List.map_map, List.map_map]
  exact List.map_congr_left fun v _ => zeroed_integer v.toInt

theorem tree_masked (b : BubbleScript) {values : List Int64}
    (same : { b with values := values : BubbleScript }.signs = b.signs) :
    { b with values := values : BubbleScript }.guarded.tree.masked = b.guarded.tree.masked := by
  have items := (zeroed_literals { b with values := values }).trans
    ((congrArg (List.map signOnly) same).trans b.zeroed_literals.symm)
  have loop : { b with values := values : BubbleScript }.guarded.outerLoop = b.guarded.outerLoop :=
    rfl
  simp only [GuardedScript.tree, GuardedScript.declaring, loop, Program.masked, Stmt.maskeds,
    Stmt.masked, VarDecl.masked, Declarator.maskeds, Declarator.masked, Expr.maskedOption,
    Expr.masked, Option.map_some, Expr.zeroedItems, items]
  rfl

end BubbleScript

def threeValuesSorted : BubbleScript := { threeValues with values := [1, -3, 8] }

theorem synthesize_compares_sorted : ∃ t t',
    (synthesize {} threeValues.text).result = .ok t ∧
    (synthesize {} threeValuesSorted.text).result = .ok t' ∧
    schedule t'.events = schedule t.events ∧
    ∃ pairs : List (Int64 × Int64), pairs.Pairwise (Prod.Lex (· < ·) (· < ·)) ∧
      (pairs.map fun x => [x.2.toInt.toNat, x.2.toInt.toNat + 1]) = [[0, 1], [1, 2], [0, 1]] := by
  obtain ⟨p, read, bare⟩ := Program.ofText_spelled threeValues.spells_text.spelling_eq
    threeValues.guarded.reads_tree threeValues.guarded.noArrow_text
  obtain ⟨q, readSorted, bareSorted⟩ := Program.ofText_spelled
    threeValuesSorted.spells_text.spelling_eq threeValuesSorted.guarded.reads_tree
    threeValuesSorted.guarded.noArrow_text
  -- Running the tree is much less work than reading the text again.
  let tree := threeValues.guarded.tree
  have bare : p.bare = tree.bare := bare
  have seen : ((TrackedArray.ofProgram tree).toOption.bind fun a =>
      (traceOf {} tree a).result.toOption.bind fun t =>
        (LoopPlan.ofProgram tree ⟨a.name, .placeholder⟩ a.values.length).nested?.map fun _ =>
          (t.events.filter fun e => e.kind = .compare).map Event.indices) =
      some [[0, 1], [1, 2], [0, 1]] := by decide +kernel
  obtain ⟨a, named, seen⟩ := Option.bind_eq_some_iff.mp seen
  obtain ⟨t, traced, seen⟩ := Option.bind_eq_some_iff.mp seen
  obtain ⟨_, nested, compared⟩ := Option.map_eq_some_iff.mp seen
  have tracked : TrackedArray.ofProgram p = .ok a := by
    rw [← TrackedArray.ofProgram_bare, bare, TrackedArray.ofProgram_bare]
    exact ok_of_toOption named
  have done : (synthesize {} threeValues.text).result = .ok t := by
    rw [synthesize_eq_traceOf read tracked, ← traceOf_bare, bare, traceOf_bare]
    exact ok_of_toOption traced
  have same : p.masked = tree.masked := by rw [← p.masked_bare, bare, Program.masked_bare]
  have sorted : q.masked = p.masked := by
    rw [← q.masked_bare, bareSorted, Program.masked_bare, same]
    exact threeValues.tree_masked (by decide)
  obtain ⟨loops, planned, -⟩ := planned_of_masked same (LoopPlan.eq_of_nested? nested)
  obtain ⟨⟨pairs, increasing, -, positions⟩, others⟩ := synthesize_compares read tracked planned done
  obtain ⟨t', done', schedules⟩ := others _ q readSorted sorted
  exact ⟨t, t', done, done', schedules, pairs, increasing, positions.symm.trans compared⟩

end SortTrace.Synthesis
