import SortTrace.Synthesis.Guard
import SortTrace.Synthesis.LoopRange

/-!
The loop plan of a script: which loops are run, over which ranges, and under which guard. At
most two loops count: the first one and the first one inside it.
-/

namespace SortTrace.Synthesis

open Script

structure NestedLoops where
  outerLoop : Loop
  innerLoop : Loop
  outer : LoopRange
  inner : LoopRange
  innerStop : InnerStop
  guard : Guard

inductive LoopPlan where
  | none
  | single (l : Loop) (range : LoopRange)
  | nested (loops : NestedLoops)

def firstLoop? (s : Stmt) : Option Loop := s.outline.loops.head?

/-- The inner end depends on the outer variable if the condition's right side mentions it. -/
def innerStopOf (outer : LoopRange) (inner : Loop) : InnerStop :=
  match outer.var, testSides? inner with
  | some var, some (_, rhs) => if rhs.mentions var then .shrinks else .fixed
  | _, _ => .fixed

namespace LoopPlan

def name : LoopPlan → String
  | none => "none"
  | single .. => "single"
  | nested _ => "nested"

def ofProgram (p : Program) (w : Watch) (length : Nat) : LoopPlan :=
  let length := Int64.ofNat length
  match p.outline.loops with
  | [] => none
  | first :: _ =>
    let outer := LoopRange.ofLoop first length
    match firstLoop? first.body with
    | .none => single first outer
    | some inner =>
      nested
        { outerLoop := first
          innerLoop := inner
          outer := outer
          inner := LoopRange.ofLoop inner length
          innerStop := innerStopOf outer inner
          guard := w.guardOf inner.body.statements }

end LoopPlan

end SortTrace.Synthesis
