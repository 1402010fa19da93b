import SortTrace.Proofs.Script.ShellOutline
import SortTrace.Proofs.Synthesis.Shell
import SortTrace.Synthesis.Synthesize

/-!
Dry runs see no more than shells: the plan and the trace of a script are those of its shell.
-/

namespace SortTrace.Synthesis

open Script

theorem firstValue_shell (init : ForInit) : firstValue init.shell = firstValue init := by
  cases init with
  | none => rfl
  | varDecl d =>
    obtain ⟨kind, ds, _⟩ := d
    obtain _ | ⟨⟨name, init, _⟩, ds⟩ := ds
    · rfl
    cases init <;>
      simp [ForInit.shell, VarDecl.shell, Declarator.shells, Declarator.shell, firstValue]
  | expr e =>
    cases e with
    | assign op target value _ => cases op <;> simp [ForInit.shell, Expr.shell, firstValue]
    | _ => rfl

theorem stopValue_shell (e : Expr) (length : Int64) :
    stopValue e.shell length = stopValue e length := by
  simp only [stopValue, Expr.number?_shell]
  cases e.number? with
  | some x => rfl
  | none => cases e <;> rfl

theorem testSides?_shell (l : Loop) :
    testSides? l.shell = (testSides? l).map fun (lhs, rhs) => (lhs.shell, rhs.shell) := by
  simp only [testSides?, Loop.test?_shell]
  rcases l.test? with _ | e
  · rfl
  · cases e <;> rfl

theorem LoopRange.ofLoop_shell (l : Loop) (length : Int64) :
    LoopRange.ofLoop l.shell length = LoopRange.ofLoop l length := by
  have sides := testSides?_shell l
  cases l with
  | forEach decl binding iterable values body s => rfl
  | forLoop init test update body s =>
    simp only [Loop.shell] at sides
    simp only [Loop.shell, ofLoop, sides, firstValue_shell]
    rcases testSides? (.forLoop init test update body s) with _ | ⟨lhs, rhs⟩
    · rfl
    · simp [stopValue_shell]
  | whileLoop test body s =>
    simp only [Loop.shell] at sides
    simp only [Loop.shell, ofLoop, sides]
    rcases testSides? (.whileLoop test body s) with _ | ⟨lhs, rhs⟩
    · rfl
    · simp [stopValue_shell]
  | doWhile body test s =>
    simp only [Loop.shell] at sides
    simp only [Loop.shell, ofLoop, sides]
    rcases testSides? (.doWhile body test s) with _ | ⟨lhs, rhs⟩
    · rfl
    · simp [stopValue_shell]

theorem innerStopOf_shell (outer : LoopRange) (inner : Loop) :
    innerStopOf outer inner.shell = innerStopOf outer inner := by
  simp only [innerStopOf, testSides?_shell]
  rcases testSides? inner with _ | ⟨lhs, rhs⟩
  · rfl
  · cases outer.var <;> simp

theorem firstLoop?_shell (s : Stmt) : firstLoop? s.shell = (firstLoop? s).map Loop.shell := by
  simp [firstLoop?]

def NestedLoops.shell (loops : NestedLoops) : NestedLoops :=
  { loops with outerLoop := loops.outerLoop.shell, innerLoop := loops.innerLoop.shell }

namespace LoopPlan

def shell : LoopPlan → LoopPlan
  | none => none
  | single l range => single l.shell range
  | nested loops => nested loops.shell

theorem name_shell (plan : LoopPlan) : plan.shell.name = plan.name := by
  cases plan <;> rfl

theorem ofProgram_shell (p : Program) (w : Watch) (length : Nat) :
    ofProgram p.shell w length = (ofProgram p w length).shell := by
  simp only [ofProgram, Program.outline_shell, Outline.loops_shell]
  rcases p.outline.loops with _ | ⟨first, rest⟩
  · rfl
  simp only [List.map_cons, Loop.body_shell, firstLoop?_shell]
  rcases firstLoop? first.body with _ | inner
  · simp [shell, LoopRange.ofLoop_shell]
  · simp [shell, NestedLoops.shell, LoopRange.ofLoop_shell, innerStopOf_shell, Watch.guardOf_shell]

end LoopPlan

namespace Watch

variable (w : Watch)

theorem allActions_shell (p : Program) : w.allActions p.shell = w.allActions p := by
  simp only [allActions, Program.outline_shell]
  rw [Outline.nodes_shell, filterMap_commutes _ _ Node.expr?_shell]
  · simp only [List.flatMap_map, notices_shell, pattern_shell]
  · refine ⟨fun _ => rfl, fun n => ?_⟩
    cases n <;> simp [Node.shell]

theorem bodyActions_shell (ss : List Stmt) :
    w.bodyActions (ss.map Stmt.shell) = w.bodyActions ss := by
  simp only [bodyActions, List.flatMap_map]
  congr 1
  funext s
  cases s <;> simp [Stmt.shell]

theorem surroundings_shell (o : Outline) : w.surroundings o.shell = w.surroundings o := by
  simp only [surroundings]
  rw [Outline.aroundLoop_shell]
  · simp only [filterMap_commutes _ _ Node.expr?_shell, ← List.map_append, List.flatMap_map,
      notices_shell, pattern_shell]
  · refine ⟨fun _ => rfl, fun n => ?_⟩
    cases n <;> simp [Node.shell]

end Watch

namespace DryRun

theorem runNested_shell (s : DryRun) (config : Config) (loops : NestedLoops) (around : Surroundings)
    (body : List Action) :
    s.runNested config loops.shell around body = s.runNested config loops around body := rfl

theorem run_shell (s : DryRun) (config : Config) (w : Watch) (p : Program) (plan : LoopPlan) :
    s.run config w p.shell plan.shell = s.run config w p plan := by
  cases plan with
  | none => simp only [LoopPlan.shell, run, Watch.allActions_shell]
  | single l range =>
    simp only [LoopPlan.shell, run, Program.outline_shell, Watch.surroundings_shell,
      Loop.body_shell, Stmt.statements_shell, Watch.bodyActions_shell]
  | nested loops =>
    have outer : loops.shell.outerLoop = loops.outerLoop.shell := rfl
    have inner : loops.shell.innerLoop = loops.innerLoop.shell := rfl
    simp only [LoopPlan.shell, run, Program.outline_shell, Watch.surroundings_shell,
      runNested_shell, outer, inner, Loop.body_shell, Stmt.outline_shell, Stmt.statements_shell,
      Watch.bodyActions_shell]

end DryRun

theorem traceOf_shell (config : Config) (p : Program) (a : TrackedArray) :
    traceOf config p.shell a = traceOf config p a := by
  simp only [traceOf, LoopPlan.ofProgram_shell, LoopPlan.name_shell, DryRun.run_shell]

end SortTrace.Synthesis
