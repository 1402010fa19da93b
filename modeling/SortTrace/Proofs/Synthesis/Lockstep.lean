import SortTrace.Proofs.Synthesis.LoopSteps
import SortTrace.Proofs.Trace.Requests
import SortTrace.Synthesis.Synthesize

/-!
Two dry runs in lockstep. If a relation between recorders implies that they hold one array, and is kept by
every request that both may get and by what is said at the start of a loop, then two runs of one plan
that start in this relation end in it, or both pass the step limit.
-/

namespace SortTrace.Synthesis

open Script

/-- Both outcomes are failures, or both are successes in some relation. -/
inductive Alike {σ τ : Type} (R : σ → τ → Prop) : Except σ σ → Except τ τ → Prop
  | ok {s : σ} {t : τ} : R s t → Alike R (.ok s) (.ok t)
  | error {s : σ} {t : τ} : Alike R (.error s) (.error t)

section

variable {σ τ : Type} {R S : σ → τ → Prop} {x : Except σ σ} {y : Except τ τ}

theorem Alike.bind {f : σ → Except σ σ} {g : τ → Except τ τ} (first : Alike R x y)
    (next : ∀ s t, R s t → Alike S (f s) (g t)) : Alike S (x >>= f) (y >>= g) := by
  cases first with
  | ok related => exact next _ _ related
  | error => exact .error

theorem Alike.mono (both : Alike R x y) (weaker : ∀ s t, R s t → S s t) : Alike S x y := by
  cases both with
  | ok related => exact .ok (weaker _ _ related)
  | error => exact .error

theorem Alike.of_ok {R : σ → σ → Prop} {x : Except σ σ} {s : σ} (both : Alike R x x)
    (ran : x = .ok s) : R s s := by
  rw [ran] at both
  cases both
  assumption

theorem iterate_alike {body : Int64 → σ → Except σ σ} {body' : Int64 → τ → Except τ τ}
    (once : ∀ i s t, R s t → Alike R (body i s) (body' i t)) (count : Nat) (i : Int64) {s : σ}
    {t : τ} (related : R s t) : Alike R (iterate body count i s) (iterate body' count i t) := by
  induction count generalizing i s t with
  | zero => exact .ok related
  | succ count ih =>
    have step := once i s t related
    rw [iterate, iterate]
    revert step
    cases body i s <;> cases body' i t <;> rintro (⟨next⟩ | _)
    · exact .error
    · exact ih (i + 1) next

end

def Action.request? : Action → Option Request
  | tell _ => none
  | compare i j => some (.compare i j)
  | swap i j => some (.swap i j)
  | set i value => some (.set i value)

def requests (actions : List Action) : List Request := actions.filterMap Action.request?

theorem requests_append (first rest : List Action) :
    requests (first ++ rest) = requests first ++ requests rest := List.filterMap_append

theorem requests_tells (ns : List Notice) : requests (ns.map Action.tell) = [] :=
  List.filterMap_eq_nil_iff.mpr fun a member => by
    obtain ⟨n, -, rfl⟩ := List.mem_map.mp member
    rfl

theorem requests_flatMap {α : Type} (f : α → List Action) (xs : List α) :
    requests (xs.flatMap f) = xs.flatMap fun x => requests (f x) := List.filterMap_flatMap

structure SameRequests (allowed : Request → Prop) (actions actions' : List Action) : Prop where
  same : requests actions' = requests actions
  allowed : ∀ q ∈ requests actions, allowed q

structure SameAround (allowed : Request → Prop) (around around' : Surroundings) : Prop where
  before : SameRequests allowed around.before around'.before
  after : SameRequests allowed around.after around'.after

/-- What two runs have to share to go on in lockstep. -/
structure Simulation (config config' : Config) (allowed : Request → Prop)
    (R : Recorder → Recorder → Prop) : Prop where
  limit : config'.maxSteps = config.maxSteps
  array : ∀ {r r'}, R r r' → r'.array = r.array
  handle : ∀ {r r' q}, allowed q → R r r' → R (r.handle q).1 (r'.handle q).1
  announced : ∀ {r r'} (label : String) (range : LoopRange), R r r' →
    R (DryRun.announced config label range r) (DryRun.announced config' label range r')
  /-- Loops ask for neighbours and for final positions. -/
  loops : ∀ k < 2 ^ 63, allowed (.compare k (k + 1)) ∧ allowed (.swap k (k + 1)) ∧
    allowed (.sorted [k])

namespace DryRun

structure InStep (R : Recorder → Recorder → Prop) (s s' : DryRun) : Prop where
  recorder : R s.recorder s'.recorder
  steps : s'.steps = s.steps

theorem perform_recorder (s : DryRun) (a : Action) :
    (s.perform a).recorder = s.recorder.run a.request?.toList := by
  have same (indices : List Nat) := s.tellOutside_recorder indices
  cases a with
  | tell n => rfl
  | compare i j => exact congrArg (fun r => (r.compare i j).1) (same [i, j])
  | swap i j => exact congrArg (fun r => (r.swap i j).1) (same [i, j])
  | set i value => exact congrArg (fun r => (r.set i value).1) (same [i])

theorem performAll_recorder (s : DryRun) (actions : List Action) :
    (s.performAll actions).recorder = s.recorder.run (requests actions) := by
  induction actions generalizing s with
  | nil => rfl
  | cons a rest ih =>
    have split : requests (a :: rest) = a.request?.toList ++ requests rest :=
      requests_append [a] rest |>.trans (by cases asked : a.request? <;> simp [requests, asked])
    rw [split, Recorder.run_append, ← s.perform_recorder a]
    exact ih (s.perform a)

section

variable {config config' : Config} {allowed : Request → Prop} {R : Recorder → Recorder → Prop}
  {s s' : DryRun} {around around' : Surroundings} {body body' : List Action} {loops : NestedLoops}

theorem run_related (sim : Simulation config config' allowed R) {qs : List Request}
    (fine : ∀ q ∈ qs, allowed q) {r r' : Recorder} (related : R r r') : R (r.run qs) (r'.run qs) := by
  induction qs generalizing r r' with
  | nil => exact related
  | cons q rest ih =>
    obtain ⟨first, others⟩ := List.forall_mem_cons.mp fine
    exact ih others (sim.handle first related)

theorem exchangeIf_related (sim : Simulation config config' allowed R)
    (asked : Int64 → Int64 → Bool) {k : Nat} (bound : k < 2 ^ 63) {r r' : Recorder}
    (related : R r r') :
    R (r.exchangeIf asked k (k + 1)) (r'.exchangeIf asked k (k + 1)) := by
  obtain ⟨compares, swaps, -⟩ := sim.loops k bound
  have array := sim.array related
  have looked : R (r.compare k (k + 1)).1 (r'.compare k (k + 1)).1 := sim.handle compares related
  have exchanged : R ((r.compare k (k + 1)).1.swap k (k + 1)).1
      ((r'.compare k (k + 1)).1.swap k (k + 1)).1 := sim.handle swaps looked
  have found : (r'.compare k (k + 1)).2 = (r.compare k (k + 1)).2 := by
    unfold Recorder.compare
    rw [array]
    split <;> rfl
  unfold Recorder.exchangeIf
  generalize r.compare k (k + 1) = c at looked exchanged found
  generalize r'.compare k (k + 1) = c' at looked exchanged found
  obtain ⟨c, values⟩ := c
  obtain ⟨c', values'⟩ := c'
  cases found
  rcases values with _ | ⟨x, y⟩
  · exact looked
  · dsimp only
    split
    · exact exchanged
    · exact looked

namespace InStep

theorem tell (inStep : InStep R s s') (n n' : Notice) : InStep R (s.tell n) (s'.tell n') :=
  ⟨inStep.recorder, inStep.steps⟩

theorem tellAll (inStep : InStep R s s') (ns ns' : List Notice) :
    InStep R (s.tellAll ns) (s'.tellAll ns') := by
  obtain ⟨recorder, steps⟩ := s.tellAll_keeps ns
  obtain ⟨recorder', steps'⟩ := s'.tellAll_keeps ns'
  refine ⟨?_, by rw [steps, steps', inStep.steps]⟩
  rw [recorder, recorder']
  exact inStep.recorder

variable (sim : Simulation config config' allowed R)

include sim

theorem performAll (inStep : InStep R s s') (asks : SameRequests allowed body body') :
    InStep R (s.performAll body) (s'.performAll body') := by
  refine ⟨?_, by rw [performAll_steps, performAll_steps, inStep.steps]⟩
  rw [performAll_recorder, performAll_recorder, asks.same]
  exact run_related sim asks.allowed inStep.recorder

theorem announce (inStep : InStep R s s') (label : String) (range : LoopRange) :
    InStep R (s.announce config label range) (s'.announce config' label range) := by
  obtain ⟨recorder, steps⟩ := s.announce_keeps config label range
  obtain ⟨recorder', steps'⟩ := s'.announce_keeps config' label range
  refine ⟨?_, by rw [steps, steps', inStep.steps]⟩
  rw [recorder, recorder']
  exact sim.announced label range inStep.recorder

theorem visitPair (inStep : InStep R s s') (guard : Guard) (j : Int64) :
    InStep R (s.visitPair guard j) (s'.visitPair guard j) := by
  refine ⟨?_, by rw [visitPair_steps, visitPair_steps, inStep.steps]⟩
  rcases Int.lt_or_le j.toInt 0 with negative | natural
  · rw [visitPair_negative _ _ negative, visitPair_negative _ _ negative]
    exact inStep.recorder
  · have bound := j.toInt_lt
    rw [visitPair_natural _ _ natural, visitPair_natural _ _ natural]
    exact exchangeIf_related sim guard.asks (by omega) inStep.recorder

theorem finishPass (inStep : InStep R s s') (loops : NestedLoops) (stop : Int64) :
    InStep R (s.finishPass loops stop) (s'.finishPass loops stop) := by
  have bound := stop.toInt_lt
  obtain ⟨-, -, final⟩ := sim.loops stop.toInt.toNat (by omega)
  unfold DryRun.finishPass
  split
  · refine ⟨?_, by rw [(s.markSorted_keeps _).2, (s'.markSorted_keeps _).2, inStep.steps]⟩
    rw [(s.markSorted_keeps _).1, (s'.markSorted_keeps _).1]
    exact sim.handle final inStep.recorder
  · exact inStep

theorem countStep (inStep : InStep R s s') :
    Alike (InStep R) (s.countStep config.maxSteps) (s'.countStep config'.maxSteps) := by
  unfold DryRun.countStep
  rw [sim.limit, inStep.steps]
  dsimp only
  split
  · exact .error
  · exact .ok ⟨inStep.recorder, rfl⟩

theorem counted (act act' : Int64 → DryRun → DryRun)
    (once : ∀ i s s', InStep R s s' → InStep R (act i s) (act' i s')) (count : Nat) (i : Int64)
    (inStep : InStep R s s') : Alike (InStep R)
      (iterate (fun i s => s.countStep config.maxSteps >>= fun s => pure (act i s)) count i s)
      (iterate (fun i s => s.countStep config'.maxSteps >>= fun s => pure (act' i s)) count i s') :=
  iterate_alike (fun i _ _ inStep => (inStep.countStep sim).bind fun t t' stepped =>
    .ok (once i t t' stepped)) count i inStep

theorem runSingle (inStep : InStep R s s') (range : LoopRange)
    (asks : SameRequests allowed body body') :
    Alike (InStep R) (s.runSingle config range body) (s'.runSingle config' range body') :=
  counted sim (fun i s => (s.tell (.singleIteration i)).performAll body)
    (fun i s => (s.tell (.singleIteration i)).performAll body')
    (fun i _ _ inStep => (inStep.tell (.singleIteration i) (.singleIteration i)).performAll sim asks)
    _ _ (inStep.announce sim "single" range)

theorem runInner (inStep : InStep R s s') (asks : SameRequests allowed body body')
    (i stop : Int64) : Alike (InStep R) (s.runInner config loops body i stop)
      (s'.runInner config' loops body' i stop) :=
  counted sim (fun j s => s.visit loops body i j) (fun j s => s.visit loops body' i j)
    (fun j _ _ inStep => ((inStep.tell (.nestedIteration i j) (.nestedIteration i j)).visitPair sim
      loops.guard j).performAll sim asks)
    _ _ (inStep.announce sim "inner" { loops.inner with stop := stop })

theorem runMiddle (inStep : InStep R s s') (asks : SameRequests allowed body body') (i : Int64) :
    Alike (InStep R) (s.runMiddle config loops body i) (s'.runMiddle config' loops body' i) := by
  have size : s'.recorder.size = s.recorder.size :=
    congrArg List.length (sim.array inStep.recorder)
  unfold DryRun.runMiddle
  rw [size]
  cases loops.innerStop.value? (Int64.ofNat s.recorder.size) i with
  | some stop =>
    exact (inStep.runInner sim asks i stop).bind fun _ _ inStep =>
      .ok (inStep.finishPass sim loops stop)
  | none => exact .ok (inStep.tell (.skippedInnerLoop i) (.skippedInnerLoop i))

theorem runPass (inStep : InStep R s s') (sets : SameAround allowed around around')
    (asks : SameRequests allowed body body') (i : Int64) :
    Alike (InStep R) (s.runPass config loops around body i)
      (s'.runPass config' loops around' body' i) := by
  rw [runPass_eq, runPass_eq]
  refine (inStep.countStep sim).bind fun t t' inStep => ?_
  refine ((inStep.performAll sim sets.before).runMiddle sim asks i).bind fun u u' inStep => ?_
  exact .ok (inStep.performAll sim sets.after)

theorem runNested (inStep : InStep R s s') (sets : SameAround allowed around around')
    (asks : SameRequests allowed body body') :
    Alike (InStep R) (s.runNested config loops around body)
      (s'.runNested config' loops around' body') :=
  iterate_alike (fun i _ _ inStep => inStep.runPass sim sets asks i) _ _
    ((inStep.tellAll around.notices around'.notices).announce sim "outer" loops.outer)

theorem run (inStep : InStep R s s') {w w' : Watch} {p : Program} {plan : LoopPlan}
    (sets : ∀ o, SameAround allowed (w.surroundings o) (w'.surroundings o))
    (bodies : ∀ stmts, SameRequests allowed (w.bodyActions stmts) (w'.bodyActions stmts))
    (all : plan = .none → SameRequests allowed (w.allActions p) (w'.allActions p)) :
    Alike (InStep R) (s.run config w p plan) (s'.run config' w' p plan) := by
  have opened := (inStep.tellAll (w.surroundings p.outline).notices
    (w'.surroundings p.outline).notices).performAll sim (sets p.outline).before
  cases plan with
  | none => exact .ok (inStep.performAll sim (all rfl))
  | single l range =>
    refine (opened.runSingle sim range (bodies l.body.statements)).bind fun t t' inStep => ?_
    exact .ok (inStep.performAll sim (sets p.outline).after)
  | nested loops =>
    refine (opened.runNested sim (sets loops.outerLoop.body.outline)
      (bodies loops.innerLoop.body.statements)).bind fun t t' inStep => ?_
    exact .ok (inStep.performAll sim (sets p.outline).after)

end InStep

end

end DryRun

namespace Watch

variable {w : Watch} {allowed : Request → Prop}

theorem requests_changes (x : Pattern) : ∀ q ∈ requests x.changes, q ∈ requests x.actions := by
  cases x <;> simp [requests, Pattern.changes, Pattern.actions]

theorem requests_overwrites (x : Pattern) :
    ∀ q ∈ requests x.overwrites, q ∈ requests x.actions := by
  cases x <;> simp [requests, Pattern.overwrites, Pattern.actions]

section

variable (fine : ∀ e, ∀ q ∈ requests (w.pattern e).actions, allowed q)

include fine

theorem sameRequests_allActions (p : Program) :
    SameRequests allowed (w.allActions p) (w.allActions p) := by
  refine ⟨rfl, fun q member => ?_⟩
  rw [allActions, requests_flatMap] at member
  obtain ⟨e, -, member⟩ := List.mem_flatMap.mp member
  rw [requests_append, requests_tells] at member
  exact fine e q member

theorem sameRequests_bodyActions (stmts : List Stmt) :
    SameRequests allowed (w.bodyActions stmts) (w.bodyActions stmts) := by
  refine ⟨rfl, fun q member => ?_⟩
  rw [bodyActions, requests_flatMap] at member
  obtain ⟨s, -, member⟩ := List.mem_flatMap.mp member
  cases s with
  | expr e _ =>
    rw [requests_append, requests_tells] at member
    exact fine e q (requests_changes _ q member)
  | _ => cases member

theorem sameAround_surroundings (o : Outline) :
    SameAround allowed (w.surroundings o) (w.surroundings o) := by
  have overwrites (es : List Expr) :
      ∀ q ∈ requests (es.flatMap fun e => (w.pattern e).overwrites), allowed q := by
    intro q member
    rw [requests_flatMap] at member
    obtain ⟨e, -, member⟩ := List.mem_flatMap.mp member
    exact fine e q (requests_overwrites _ q member)
  exact ⟨⟨rfl, overwrites _⟩, ⟨rfl, overwrites _⟩⟩

end

end Watch

theorem DryRun.InStep.run_same {config config' : Config} {allowed : Request → Prop}
    {R : Recorder → Recorder → Prop} {s s' : DryRun} {w : Watch}
    (sim : Simulation config config' allowed R) (inStep : DryRun.InStep R s s')
    (fine : ∀ e, ∀ q ∈ requests (w.pattern e).actions, allowed q) (p : Program) (plan : LoopPlan) :
    Alike (DryRun.InStep R) (s.run config w p plan) (s'.run config' w p plan) :=
  inStep.run sim (Watch.sameAround_surroundings fine) (Watch.sameRequests_bodyActions fine)
    fun _ => Watch.sameRequests_allActions fine p

def dryRun (config : Config) (p : Program) (a : TrackedArray) : Except DryRun DryRun :=
  let w : Watch := ⟨a.name, config.indexPolicy⟩
  let plan := LoopPlan.ofProgram p w a.values.length
  let start : DryRun :=
    { recorder := .start a.values
      notices := #[.discoveredArray a.name a.values.length, .classifiedLoops plan.name] }
  start.run config w p plan

theorem dryRun_alike {config config' : Config} {allowed : Request → Prop}
    {R : Recorder → Recorder → Prop} {p : Program} {a : TrackedArray}
    (sim : Simulation config config' allowed R)
    (policy : config'.indexPolicy = config.indexPolicy)
    (fine : ∀ e, ∀ q ∈ requests ((⟨a.name, config.indexPolicy⟩ : Watch).pattern e).actions,
      allowed q)
    (first : R (.start a.values) (.start a.values)) :
    Alike (DryRun.InStep R) (dryRun config p a) (dryRun config' p a) := by
  unfold dryRun
  rw [policy]
  exact DryRun.InStep.run_same sim ⟨first, rfl⟩ fine p _

theorem synthesize_eq_traceOf {config : Config} {text : String} {p : Program} {a : TrackedArray}
    (read : Program.ofText text = .ok p) (tracked : TrackedArray.ofProgram p = .ok a) :
    synthesize config text = traceOf config p a := by
  simp only [synthesize, read, tracked]

theorem synthesize_ok {config : Config} {text : String} {p : Program} {a : TrackedArray}
    {s : DryRun} (read : Program.ofText text = .ok p) (tracked : TrackedArray.ofProgram p = .ok a)
    (ran : dryRun config p a = .ok s) :
    (synthesize config text).result = .ok s.recorder.finish := by
  unfold dryRun at ran
  simp only [synthesize_eq_traceOf read tracked, traceOf, ran]

theorem synthesize_error {config : Config} {text : String} {p : Program} {a : TrackedArray}
    {s : DryRun} (read : Program.ofText text = .ok p) (tracked : TrackedArray.ofProgram p = .ok a)
    (ran : dryRun config p a = .error s) :
    (synthesize config text).result = .error (.stepLimit config.maxSteps) := by
  unfold dryRun at ran
  simp only [synthesize_eq_traceOf read tracked, traceOf, ran]

structure BothRan (config config' : Config) (text : String) (R : DryRun → DryRun → Prop)
    (p : Program) (a : TrackedArray) (s s' : DryRun) : Prop where
  read : Program.ofText text = .ok p
  tracked : TrackedArray.ofProgram p = .ok a
  ran : dryRun config p a = .ok s
  ran' : dryRun config' p a = .ok s'
  related : R s s'
  made : (synthesize config text).result = .ok s.recorder.finish
  made' : (synthesize config' text).result = .ok s'.recorder.finish

theorem synthesize_alike {config config' : Config} {R : DryRun → DryRun → Prop} (text : String)
    (limit : config'.maxSteps = config.maxSteps)
    (runs : ∀ p a, Program.ofText text = .ok p → TrackedArray.ofProgram p = .ok a →
      Alike R (dryRun config p a) (dryRun config' p a)) :
    (∃ e, (synthesize config text).result = .error e ∧
      (synthesize config' text).result = .error e) ∨
    ∃ p a s s', BothRan config config' text R p a s s' := by
  cases read : Program.ofText text with
  | error e => exact .inl ⟨.syntaxError e, by simp only [synthesize, read, and_self]⟩
  | ok p =>
    cases tracked : TrackedArray.ofProgram p with
    | error why => exact .inl ⟨.noArray why, by simp only [synthesize, read, tracked, and_self]⟩
    | ok a =>
      have both := runs p a read tracked
      cases ran : dryRun config p a with
      | error s =>
        cases ran' : dryRun config' p a with
        | error s' =>
          have failed' := synthesize_error read tracked ran'
          rw [limit] at failed'
          exact .inl ⟨.stepLimit config.maxSteps, synthesize_error read tracked ran, failed'⟩
        | ok s' =>
          rw [ran, ran'] at both
          cases both
      | ok s =>
        cases ran' : dryRun config' p a with
        | error s' =>
          rw [ran, ran'] at both
          cases both
        | ok s' =>
          rw [ran, ran'] at both
          obtain ⟨related⟩ := both
          exact .inr ⟨p, a, s, s', read, tracked, ran, ran', related,
            synthesize_ok read tracked ran, synthesize_ok read tracked ran'⟩

end SortTrace.Synthesis
