import SortTrace.Synthesis.Pattern

/-!
Actions: what the expressions of a script ask for, in order. What an expression does is the same in
every iteration, so it is read once, before anything is run.
-/

namespace SortTrace.Synthesis

open Script

inductive Action where
  | tell (n : Notice)
  | compare (i j : Nat)
  | swap (i j : Nat)
  | set (i : Nat) (value : Int64)
deriving DecidableEq

namespace Pattern

/-- Whether a walk goes on below an expression with a pattern when the script has no loops. -/
def isOpen : Pattern → Bool
  | access _ | unrecognized => true
  | _ => false

def isSet : Pattern → Bool
  | set .. => true
  | _ => false

def actions : Pattern → List Action
  | comparison _ i j => [.compare i j]
  | swap i j => [.swap i j]
  | set i value => [.set i value]
  | _ => []

def changes : Pattern → List Action
  | swap i j => [.swap i j]
  | set i value => [.set i value]
  | _ => []

def overwrites : Pattern → List Action
  | set i value => [.set i value]
  | _ => []

end Pattern

structure Surroundings where
  notices : List Notice
  before : List Action
  after : List Action

namespace Watch

/-- Everything that the expressions of a script without loops do, in visiting order, outside
functions. Nothing is looked for inside a comparison, a swap or a set. -/
def allActions (w : Watch) (p : Program) : List Action :=
  let stop : Node → Bool
    | .func _ => true
    | .expr e => !(w.pattern e).isOpen
    | _ => false
  ((p.outline.nodes stop).filterMap Node.expr?).flatMap fun e =>
    (w.notices e).map .tell ++ (w.pattern e).actions

def bodyActions (w : Watch) (stmts : List Stmt) : List Action :=
  stmts.flatMap fun s =>
    match s with
    | .expr e _ => (w.notices e).map .tell ++ (w.pattern e).changes
    | _ => []

/-- The sets around the first loop of an outline. Nothing is looked for inside a set. -/
def surroundings (w : Watch) (o : Outline) : Surroundings :=
  let stop : Node → Bool
    | .func _ => true
    | .expr e => (w.pattern e).isSet
    | _ => false
  let (before, after) := o.aroundLoop stop
  let exprsBefore := before.filterMap Node.expr?
  let exprsAfter := after.filterMap Node.expr?
  { notices := (exprsBefore ++ exprsAfter).flatMap w.notices
    before := exprsBefore.flatMap fun e => (w.pattern e).overwrites
    after := exprsAfter.flatMap fun e => (w.pattern e).overwrites }

end Watch

end SortTrace.Synthesis
