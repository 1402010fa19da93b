import SortTrace.Script.Tree

/-!
Loop ranges: the values of a loop variable, read from the loop's header without running anything.
Ranges are read once and for all, so every run ends.
-/

namespace SortTrace.Synthesis

open Script

/-- The values of a loop variable: from `start` up to but not including `stop`. -/
structure LoopRange where
  var : Option String
  start : Int64
  stop : Int64
deriving DecidableEq

def firstValue : ForInit → Option String × Option Int64
  | .varDecl (.mk _ (.mk name init _ :: _) _) =>
    (some name, (init.bind Expr.number?).map Numeral.Signed.toInt64)
  | .expr (.assign _ target value _) =>
    (target.name?, value.number?.map Numeral.Signed.toInt64)
  | _ => (none, none)

/-- The end of a range that is bounded by an expression, for an array of the given length: a number
stands for itself, an operation for one less than the length, and anything else for the length. -/
def stopValue (e : Expr) (length : Int64) : Int64 :=
  match e.number? with
  | some x => x.toInt64
  | none =>
    match e with
    | .binary .. => length - 1
    | _ => length

/-- The two sides of a loop condition. Its operator does not count. -/
def testSides? (l : Loop) : Option (Expr × Expr) :=
  match l.test? with
  | some (.binary lhs _ rhs _) => some (lhs, rhs)
  | _ => none

def LoopRange.ofLoop (l : Loop) (length : Int64) : LoopRange :=
  match l with
  | .forEach _ binding _ _ _ _ => ⟨some binding, 0, length⟩
  | _ =>
    let (var, start) := match l with
      | .forLoop init _ _ _ _ => firstValue init
      | _ => (none, none)
    let stop := match testSides? l with
      | some (_, rhs) => stopValue rhs length
      | none => length
    let tested := (testSides? l).bind fun (lhs, _) => lhs.name?
    ⟨var.or tested, start.getD 0, stop⟩

/-- Where the inner of two loops stops: always before the last position, or earlier by the outer
variable. -/
inductive InnerStop where
  | fixed | shrinks
deriving DecidableEq

def exactSub? (a b : Int64) : Option Int64 :=
  let d := a.toInt - b.toInt
  if -2 ^ 63 ≤ d ∧ d < 2 ^ 63 then some (Int64.ofInt d) else none

def InnerStop.value? (s : InnerStop) (length outer : Int64) : Option Int64 := do
  let last ← exactSub? length 1
  match s with
  | fixed => return last
  | shrinks => exactSub? last outer

end SortTrace.Synthesis
