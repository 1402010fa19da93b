import SortTrace.Synthesis.Pattern

/-!
Exchanges among statements: two elements of the watched array change places, in one destructuring
assignment or by three assignments with a variable between them.
-/

namespace SortTrace.Synthesis

open Script

def assigned? : Stmt → Option (Expr × Expr)
  | .expr (.assign .assign target value _) _ => some (target, value)
  | _ => none

def saved? : Stmt → Option (String × Expr)
  | .varDecl (.mk _ [.mk name (some value) _] _) _ => some (name, value)
  | s => do
    let (target, value) ← assigned? s
    return (← target.name?, value)

namespace Watch

/-- Three statements `t = a[x]`, `a[x] = a[y]` and `a[y] = t`. -/
def exchangesThrough (w : Watch) (save shift restore : Stmt) : Bool :=
  match saved? save, assigned? shift, assigned? restore with
  | some (t, x), some (x', y), some (y', t') =>
    w.isElement x && sameText x' x && w.isElement y && sameText y' y && t'.name? == some t
  | _, _, _ => false

def startsWithSwap (w : Watch) : List Stmt → Bool
  | [] => false
  | s :: rest =>
    let alone := match s with
      | .expr e _ => w.exchangesElements e
      | _ => false
    let together := match rest with
      | shift :: restore :: _ => w.exchangesThrough s shift restore
      | _ => false
    alone || together

def holdsSwap (w : Watch) : List Stmt → Bool
  | [] => false
  | s :: rest => w.startsWithSwap (s :: rest) || w.holdsSwap rest

end Watch

end SortTrace.Synthesis
