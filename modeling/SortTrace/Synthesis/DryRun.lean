import SortTrace.Synthesis.Action
import SortTrace.Synthesis.LoopPlan
import SortTrace.Trace.Recorder

/-!
Dry runs: the planned loops of a script run over a copy of its array, and only recognised patterns
have an effect. The number of iterations is limited; a run that passes the limit fails.
-/

namespace SortTrace.Synthesis

open Script

/-- The state of a dry run. `steps` counts the iterations so far. -/
structure DryRun where
  recorder : Recorder
  steps : Nat := 0
  notices : Array Notice := #[]

def iterate {σ : Type} (body : Int64 → σ → Except σ σ) : (count : Nat) → Int64 → σ → Except σ σ
  | 0, _, s => .ok s
  | count + 1, i, s =>
    match body i s with
    | .ok s => iterate body count (i + 1) s
    | .error s => .error s

def rangeCount (start stop : Int64) : Nat := (stop.toInt - start.toInt).toNat

namespace DryRun

def tell (s : DryRun) (n : Notice) : DryRun := { s with notices := s.notices.push n }

def tellAll (s : DryRun) (ns : List Notice) : DryRun := ns.foldl tell s

def tellOutside (s : DryRun) (indices : List Nat) : DryRun :=
  match s.recorder.outside? indices with
  | some i => s.tell (.rejectedIndex i s.recorder.size)
  | none => s

def perform (s : DryRun) : Action → DryRun
  | .tell n => s.tell n
  | .compare i j =>
    let s := s.tellOutside [i, j]
    { s with recorder := (s.recorder.compare i j).1 }
  | .swap i j =>
    let s := s.tellOutside [i, j]
    { s with recorder := (s.recorder.swap i j).1 }
  | .set i value =>
    let s := s.tellOutside [i]
    { s with recorder := (s.recorder.set i value).1 }

def performAll (s : DryRun) (actions : List Action) : DryRun := actions.foldl perform s

def markSorted (s : DryRun) (i : Nat) : DryRun :=
  let s := s.tellOutside [i]
  { s with recorder := (s.recorder.sorted [i]).1 }

/-- Compares position `j` with the next and exchanges the two if the guard asks for it. -/
def visitPair (s : DryRun) (guard : Guard) (j : Int64) : DryRun :=
  if j < 0 then s.tell (.skippedIndex j)
  else
    let i := j.toInt.toNat
    let s := s.tellOutside [i, i + 1]
    { s with recorder := s.recorder.exchangeIf guard.asks i (i + 1) }

def countStep (s : DryRun) (limit : Nat) : Except DryRun DryRun :=
  let s := { s with steps := s.steps + 1 }
  if limit < s.steps then .error s else .ok s

def announce (s : DryRun) (config : Config) (label : String) (range : LoopRange) : DryRun :=
  if config.loopComments then
    let var := range.var.getD "?"
    let message := s!"{label} loop: {var} from {range.start} to {range.stop}"
    { s with recorder := s.recorder.comment message }
  else s

def runSingle (s : DryRun) (config : Config) (range : LoopRange) (body : List Action) :
    Except DryRun DryRun :=
  let step (i : Int64) (s : DryRun) : Except DryRun DryRun := do
    let s ← s.countStep config.maxSteps
    return (s.tell (.singleIteration i)).performAll body
  iterate step (rangeCount range.start range.stop) range.start (s.announce config "single" range)

def runInner (s : DryRun) (config : Config) (loops : NestedLoops) (body : List Action)
    (i stop : Int64) : Except DryRun DryRun :=
  let step (j : Int64) (s : DryRun) : Except DryRun DryRun := do
    let s ← s.countStep config.maxSteps
    return ((s.tell (.nestedIteration i j)).visitPair loops.guard j).performAll body
  iterate step (rangeCount loops.inner.start stop) loops.inner.start
    (s.announce config "inner" { loops.inner with stop := stop })

/-- After a pass that shrinks with the outer variable, under a condition, the position behind the
pass is final. -/
def finishPass (s : DryRun) (loops : NestedLoops) (stop : Int64) : DryRun :=
  if loops.innerStop = .shrinks && loops.guard.isConditional && 0 ≤ stop then
    s.markSorted stop.toInt.toNat
  else s

def runPass (s : DryRun) (config : Config) (loops : NestedLoops) (around : Surroundings)
    (body : List Action) (i : Int64) : Except DryRun DryRun := do
  let s ← s.countStep config.maxSteps
  let s := s.performAll around.before
  let s ← match loops.innerStop.value? (Int64.ofNat s.recorder.size) i with
    | some stop => do
      let s ← s.runInner config loops body i stop
      pure (s.finishPass loops stop)
    | none => pure (s.tell (.skippedInnerLoop i))
  return s.performAll around.after

def runNested (s : DryRun) (config : Config) (loops : NestedLoops) (around : Surroundings)
    (body : List Action) : Except DryRun DryRun :=
  iterate (fun i s => s.runPass config loops around body i)
    (rangeCount loops.outer.start loops.outer.stop) loops.outer.start
    ((s.tellAll around.notices).announce config "outer" loops.outer)

/-- Runs a script by its plan. Sets outside the planned loops are performed once, before or after
them. An error is the state in which the step limit was passed. -/
def run (s : DryRun) (config : Config) (w : Watch) (p : Program) :
    LoopPlan → Except DryRun DryRun
  | .none => .ok (s.performAll (w.allActions p))
  | .single l range => do
    let sets := w.surroundings p.outline
    let s := (s.tellAll sets.notices).performAll sets.before
    let s ← s.runSingle config range (w.bodyActions l.body.statements)
    return s.performAll sets.after
  | .nested loops => do
    let sets := w.surroundings p.outline
    let s := (s.tellAll sets.notices).performAll sets.before
    let s ← s.runNested config loops (w.surroundings loops.outerLoop.body.outline)
      (w.bodyActions loops.innerLoop.body.statements)
    return s.performAll sets.after

end DryRun

end SortTrace.Synthesis
