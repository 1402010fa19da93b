import SortTrace.Proofs.Synthesis.LoopSteps

/-!
The step limit only gates. A plan asks for a number of iterations that is known beforehand; a run under a
smaller limit fails, and every other limit lets the same run through.
-/

namespace SortTrace.Synthesis

open Script

/-- The iterations of the inner loop in one pass: none if its end does not resolve. -/
def NestedLoops.innerSteps (loops : NestedLoops) (length : Nat) (i : Int64) : Nat :=
  match loops.innerStop.value? (Int64.ofNat length) i with
  | some stop => (stop.toInt - loops.inner.start.toInt).toNat
  | none => 0

def LoopRange.values (range : LoopRange) : List Int64 :=
  (List.range (range.stop.toInt - range.start.toInt).toNat).map fun k : Nat =>
    Int64.ofInt (range.start.toInt + k)

theorem LoopRange.mem_values {range : LoopRange} {i : Int64} :
    i ∈ range.values ↔ range.start.toInt ≤ i.toInt ∧ i.toInt < range.stop.toInt := by
  have low := range.start.le_toInt
  have high := range.stop.toInt_lt
  simp only [values, List.mem_map, List.mem_range]
  constructor
  · rintro ⟨k, inside, rfl⟩
    rw [Int64.toInt_ofInt_of_le (by omega) (by omega)]
    omega
  · rintro ⟨above, below⟩
    refine ⟨(i.toInt - range.start.toInt).toNat, by omega, ?_⟩
    rw [show range.start.toInt + (i.toInt - range.start.toInt).toNat = i.toInt by omega,
      Int64.ofInt_toInt]

def LoopRange.total (range : LoopRange) (cost : Int64 → Nat) : Nat :=
  range.values.foldr (fun i rest => cost i + rest) 0

def LoopPlan.steps (length : Nat) : LoopPlan → Nat
  | none => 0
  | single _ range => (range.stop.toInt - range.start.toInt).toNat
  | nested loops => loops.outer.total fun i => 1 + loops.innerSteps length i

def rowCost (cost : Int64 → Nat) : (count : Nat) → Int64 → Nat
  | 0, _ => 0
  | count + 1, i => cost i + rowCost cost count (i + 1)

theorem rowCost_one (count : Nat) (i : Int64) : rowCost (fun _ => 1) count i = count := by
  induction count generalizing i with
  | zero => rfl
  | succ count ih =>
    rw [rowCost, ih]
    omega

theorem rowCost_eq_foldr (cost : Int64 → Nat) (count : Nat) (i : Int64)
    (room : i.toInt + count < 2 ^ 63) : rowCost cost count i =
      ((List.range count).map fun k : Nat => Int64.ofInt (i.toInt + k)).foldr
        (fun i rest => cost i + rest) 0 := by
  induction count generalizing i with
  | zero => rfl
  | succ count ih =>
    have next : (i + 1).toInt = i.toInt + 1 := toInt_succ (by omega)
    have shift (k : Nat) : i.toInt + 1 + k = i.toInt + (k + 1 : Nat) := by omega
    have further := ih (i + 1) (by omega)
    simp only [next, shift] at further
    rw [rowCost, further, List.range_succ_eq_map, List.map_cons, List.foldr_cons, List.map_map,
      Int.natCast_zero, Int.add_zero, Int64.ofInt_toInt]
    rfl

theorem rowCost_range (cost : Int64 → Nat) (range : LoopRange) :
    rowCost cost (rangeCount range.start range.stop) range.start = range.total cost := by
  have low := range.start.toInt_lt
  have high := range.stop.toInt_lt
  exact rowCost_eq_foldr cost _ _ (by rw [rangeCount]; omega)

/-- Under every limit that its iterations fit in, a run ends in the same state; under a smaller one that
was not passed before, it fails. -/
structure Metered (run : Nat → Except DryRun DryRun) (s : DryRun) (cost : Nat) (t : DryRun) :
    Prop where
  steps_eq : t.steps = s.steps + cost
  size_eq : t.recorder.size = s.recorder.size
  within : ∀ limit, s.steps + cost ≤ limit → run limit = .ok t
  beyond : ∀ limit, s.steps ≤ limit → limit < s.steps + cost → ∃ u, run limit = .error u

namespace Metered

variable {s t u : DryRun} {run : Nat → Except DryRun DryRun}
  {next : Nat → DryRun → Except DryRun DryRun} {c d : Nat}

theorem still (steps : t.steps = s.steps) (size : t.recorder.size = s.recorder.size) :
    Metered (fun _ => .ok t) s 0 t :=
  ⟨steps, size, fun _ _ => rfl, fun limit _ _ => by omega⟩

theorem bind (first : Metered run s c t) (second : Metered (fun limit => next limit t) t d u) :
    Metered (fun limit => run limit >>= next limit) s (c + d) u := by
  have middle := first.steps_eq
  have last := second.steps_eq
  refine ⟨by omega, second.size_eq.trans first.size_eq, fun limit room => ?_, fun limit fresh short => ?_⟩
  · rw [first.within limit (by omega)]
    exact second.within limit (by omega)
  · rcases Nat.lt_or_ge limit (s.steps + c) with early | late
    · obtain ⟨v, failed⟩ := first.beyond limit fresh early
      exact ⟨v, by rw [failed]; rfl⟩
    · obtain ⟨v, failed⟩ := second.beyond limit (by omega) (by omega)
      exact ⟨v, by rw [first.within limit late]; exact failed⟩

theorem map (metered : Metered run s c t) (act : DryRun → DryRun) (steps : (act t).steps = t.steps)
    (size : (act t).recorder.size = t.recorder.size) :
    Metered (fun limit => run limit >>= fun s => pure (act s)) s c (act t) := by
  refine ⟨steps.trans metered.steps_eq, size.trans metered.size_eq, fun limit room => ?_,
    fun limit fresh short => ?_⟩
  · rw [metered.within limit room]
    rfl
  · obtain ⟨v, failed⟩ := metered.beyond limit fresh short
    exact ⟨v, by rw [failed]; rfl⟩

theorem after (metered : Metered run t c u) (steps : t.steps = s.steps)
    (size : t.recorder.size = s.recorder.size) : Metered run s c u := by
  obtain ⟨steps_eq, size_eq, within, beyond⟩ := metered
  rw [steps] at steps_eq within beyond
  exact ⟨steps_eq, size_eq.trans size, within, beyond⟩

end Metered

theorem metered_iterate (body : Nat → Int64 → DryRun → Except DryRun DryRun) (cost : Int64 → Nat)
    (size : Nat) (once : ∀ i s, s.recorder.size = size →
      ∃ t, Metered (fun limit => body limit i s) s (cost i) t)
    (count : Nat) (i : Int64) (s : DryRun) (same : s.recorder.size = size) :
    ∃ t, Metered (fun limit => iterate (body limit) count i s) s (rowCost cost count i) t := by
  induction count generalizing i s with
  | zero => exact ⟨s, .still rfl rfl⟩
  | succ count ih =>
    obtain ⟨t, first⟩ := once i s same
    obtain ⟨u, rest⟩ := ih (i + 1) t (first.size_eq.trans same)
    refine ⟨u, ?_⟩
    have unrolled : (fun limit => iterate (body limit) (count + 1) i s) =
        fun limit => body limit i s >>= fun t => iterate (body limit) count (i + 1) t := by
      funext limit
      rw [iterate]
      cases body limit i s <;> rfl
    rw [unrolled]
    exact first.bind rest

namespace DryRun

variable (s : DryRun) (config : Config) (loops : NestedLoops) (body : List Action)

theorem metered_countStep :
    Metered (fun limit => s.countStep limit) s 1 { s with steps := s.steps + 1 } := by
  refine ⟨rfl, rfl, fun limit room => countStep_room (by omega), fun limit fresh short => ?_⟩
  have passed : limit < s.steps + 1 := short
  exact ⟨_, by rw [countStep, if_pos passed]⟩

theorem metered_loop (act : Int64 → DryRun → DryRun)
    (steps : ∀ i s, (act i s).steps = s.steps)
    (sizes : ∀ i s, (act i s).recorder.size = s.recorder.size) (count : Nat) (i : Int64) :
    ∃ t, Metered (fun limit => iterate (fun i s => s.countStep limit >>= fun s => pure (act i s))
      count i s) s count t := by
  obtain ⟨t, metered⟩ := metered_iterate
    (fun limit i s => s.countStep limit >>= fun s => pure (act i s)) (fun _ => 1) s.recorder.size
    (fun i s _ => ⟨_, s.metered_countStep.map (act i) (steps i _) (sizes i _)⟩) count i s rfl
  rw [rowCost_one] at metered
  exact ⟨t, metered⟩

theorem metered_single (range : LoopRange) :
    ∃ t, Metered (fun limit => s.runSingle { config with maxSteps := limit } range body) s
      (rangeCount range.start range.stop) t := by
  obtain ⟨t, metered⟩ := (s.announce config "single" range).metered_loop
    (fun i s => (s.tell (.singleIteration i)).performAll body)
    (fun i s => (s.tell (.singleIteration i)).performAll_steps body)
    (fun i s => (s.tell (.singleIteration i)).performAll_size body)
    (rangeCount range.start range.stop) range.start
  exact ⟨t, metered.after (s.announce_keeps config "single" range).2 (s.announce_size ..)⟩

theorem metered_inner (i stop : Int64) :
    ∃ t, Metered (fun limit => s.runInner { config with maxSteps := limit } loops body i stop) s
      (rangeCount loops.inner.start stop) t := by
  let range : LoopRange := { loops.inner with stop := stop }
  obtain ⟨t, metered⟩ := (s.announce config "inner" range).metered_loop
    (fun j s => s.visit loops body i j) (fun j s => s.visit_steps loops body i j)
    (fun j s => s.visit_size loops body i j) (rangeCount loops.inner.start stop) loops.inner.start
  exact ⟨t, metered.after (s.announce_keeps config "inner" range).2 (s.announce_size ..)⟩

variable (around : Surroundings)

theorem metered_middle (i : Int64) : ∃ t,
    Metered (fun limit => s.runMiddle { config with maxSteps := limit } loops body i) s
      (loops.innerSteps s.recorder.size i) t := by
  unfold runMiddle NestedLoops.innerSteps
  cases loops.innerStop.value? (Int64.ofNat s.recorder.size) i with
  | none => exact ⟨s.tell (.skippedInnerLoop i), .still rfl rfl⟩
  | some stop =>
    obtain ⟨t, inner⟩ := s.metered_inner config loops body i stop
    exact ⟨_, inner.map (fun t => t.finishPass loops stop) (t.finishPass_steps loops stop)
      (t.finishPass_size loops stop)⟩

theorem metered_pass (i : Int64) :
    ∃ t, Metered (fun limit => s.runPass { config with maxSteps := limit } loops around body i) s
      (1 + loops.innerSteps s.recorder.size i) t := by
  let counted : DryRun := { s with steps := s.steps + 1 }
  have size : (counted.performAll around.before).recorder.size = s.recorder.size :=
    counted.performAll_size around.before
  obtain ⟨t, middle⟩ := (counted.performAll around.before).metered_middle config loops body i
  rw [size] at middle
  have rest := middle.map (fun s => s.performAll around.after) (t.performAll_steps around.after)
    (t.performAll_size around.after)
  refine ⟨t.performAll around.after, ?_⟩
  simp only [runPass_eq]
  exact s.metered_countStep.bind (rest.after (counted.performAll_steps around.before) size)

theorem metered_nested :
    ∃ t, Metered (fun limit => s.runNested { config with maxSteps := limit } loops around body) s
      ((LoopPlan.nested loops).steps s.recorder.size) t := by
  let told := s.tellAll around.notices
  let u := told.announce config "outer" loops.outer
  have steps : u.steps = s.steps :=
    (told.announce_keeps config "outer" loops.outer).2.trans (s.tellAll_keeps around.notices).2
  have size : u.recorder.size = s.recorder.size :=
    (told.announce_size ..).trans (congrArg Recorder.size (s.tellAll_keeps around.notices).1)
  obtain ⟨t, metered⟩ := metered_iterate
    (fun limit i s => s.runPass { config with maxSteps := limit } loops around body i)
    (fun i => 1 + loops.innerSteps s.recorder.size i) s.recorder.size
    (fun i v same => same ▸ v.metered_pass config loops body around i)
    (rangeCount loops.outer.start loops.outer.stop) loops.outer.start u size
  rw [rowCost_range] at metered
  exact ⟨t, metered.after steps size⟩

variable (w : Watch) (p : Program)

theorem metered_loops (plan : LoopPlan) :
    ∃ t, Metered (fun limit => s.runLoops { config with maxSteps := limit } w plan) s
      (plan.steps s.recorder.size) t := by
  cases plan with
  | none => exact ⟨s, .still rfl rfl⟩
  | single l range => exact s.metered_single config _ range
  | nested loops => exact s.metered_nested config loops _ _

theorem metered_run (plan : LoopPlan) :
    ∃ t, Metered (fun limit => s.run { config with maxSteps := limit } w p plan) s
      (plan.steps s.recorder.size) t := by
  let sets := w.surroundings p.outline
  let u := (s.tellAll sets.notices).performAll sets.before
  have steps : u.steps = s.steps :=
    (performAll_steps _ sets.before).trans (s.tellAll_keeps sets.notices).2
  have size : u.recorder.size = s.recorder.size :=
    (performAll_size _ sets.before).trans (congrArg Recorder.size (s.tellAll_keeps sets.notices).1)
  obtain ⟨t, loops⟩ := u.metered_loops config w plan
  rw [size] at loops
  have whole := (loops.map (fun t => t.performAll sets.after) (t.performAll_steps sets.after)
    (t.performAll_size sets.after)).after steps size
  cases plan with
  | none => exact ⟨_, .still (s.performAll_steps _) (s.performAll_size _)⟩
  | single l range => exact ⟨_, whole⟩
  | nested loops => exact ⟨_, whole⟩

end DryRun

/-- The limit is exceeded exactly when it is smaller than the number of iterations that the plan asks
for. Otherwise the trace does not depend on it. -/
theorem synthesize_gated {config : Config} {text : String} {p : Program} {a : TrackedArray}
    (read : Program.ofText text = .ok p) (tracked : TrackedArray.ofProgram p = .ok a) :
    let plan := LoopPlan.ofProgram p ⟨a.name, config.indexPolicy⟩ a.values.length
    ∃ t, ∀ limit : Nat,
      ((synthesize { config with maxSteps := limit } text).result = .error (.stepLimit limit) ↔
        limit < plan.steps a.values.length) ∧
      (¬ limit < plan.steps a.values.length →
        (synthesize { config with maxSteps := limit } text).result = .ok t) := by
  intro plan
  let start : DryRun :=
    { recorder := .start a.values
      notices := #[.discoveredArray a.name a.values.length, .classifiedLoops plan.name] }
  obtain ⟨final, metered⟩ := start.metered_run config ⟨a.name, config.indexPolicy⟩ p plan
  have fresh : start.steps = 0 := rfl
  have size : start.recorder.size = a.values.length := rfl
  rw [size] at metered
  refine ⟨final.recorder.finish, fun limit => ?_⟩
  rcases Nat.lt_or_ge limit (plan.steps a.values.length) with short | enough
  · obtain ⟨u, failed⟩ := metered.beyond limit (by omega) (by omega)
    have result : (synthesize { config with maxSteps := limit } text).result =
        .error (.stepLimit limit) := by
      simp only [start, plan] at failed
      simp only [synthesize, read, tracked, traceOf, failed]
    exact ⟨⟨fun _ => short, fun _ => result⟩, fun room => absurd short room⟩
  · have room : ¬ limit < plan.steps a.values.length := Nat.not_lt.mpr enough
    have ran := metered.within limit (by omega)
    have result : (synthesize { config with maxSteps := limit } text).result =
        .ok final.recorder.finish := by
      simp only [start, plan] at ran
      simp only [synthesize, read, tracked, traceOf, ran]
    refine ⟨⟨fun failed => ?_, fun short => absurd short room⟩, fun _ => result⟩
    rw [result] at failed
    cases failed

def twoPassesText : String := "let a=[2,1];for(let i=0;i<2;i++)for(let j=0;j<i;j++);"

theorem synthesize_gated_twoPasses : ∃ p a t,
    Program.ofText twoPassesText = .ok p ∧ TrackedArray.ofProgram p = .ok a ∧ ∀ limit : Nat,
      ((synthesize { maxSteps := limit } twoPassesText).result = .error (.stepLimit limit) ↔
        limit < 3) ∧
      (¬ limit < 3 → (synthesize { maxSteps := limit } twoPassesText).result = .ok t) := by
  have seen : ((Program.ofText twoPassesText).toOption.bind fun p =>
      (TrackedArray.ofProgram p).toOption.map fun a =>
        (LoopPlan.ofProgram p ⟨a.name, .placeholder⟩ a.values.length).steps a.values.length) =
      some 3 := by decide +kernel
  obtain ⟨p, found, seen⟩ := Option.bind_eq_some_iff.mp seen
  obtain ⟨a, named, steps⟩ := Option.map_eq_some_iff.mp seen
  have read := ok_of_toOption found
  have tracked := ok_of_toOption named
  obtain ⟨t, gated⟩ := @synthesize_gated {} _ _ _ read tracked
  rw [steps] at gated
  exact ⟨p, a, t, read, tracked, gated⟩

end SortTrace.Synthesis
