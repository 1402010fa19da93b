import SortTrace.Synthesis.Exchange

/-!
Guards: what decides whether two neighbours are exchanged. The guard of an inner loop is read from
its body: the relation of a condition around an exchange, if the body has one.
-/

namespace SortTrace.Synthesis

open Script

inductive Guard where
  /-- Neighbours are exchanged when the relation holds of them, the left one first. -/
  | holding (r : Relation)
  | always
  /-- No exchange was found; neighbours are only compared. -/
  | absent
deriving DecidableEq

namespace Guard

def asks (g : Guard) (x y : Int64) : Bool :=
  match g with
  | holding r => r.holds x y
  | always => true
  | absent => false

def isConditional : Guard → Bool
  | holding _ => true
  | _ => false

end Guard

namespace Watch

def testRelation? (w : Watch) (test : Expr) : Option Relation :=
  match test with
  | .binary _ op _ _ => if w.comparesElements test then Relation.ofSymbol? op.text else none
  | _ => none

/-- The guard of a statement that stands alone, where it may be an exchange by itself; `inside` is
what was found inside it. -/
def aloneGuard? (w : Watch) (s : Stmt) (inside : Option Guard) : Option Guard :=
  if w.startsWithSwap [s] then some .always else inside

mutual

/-- What guards the first exchange in a list of statements. An exchange that is reached without a
comparing condition in front of it happens always. -/
def firstGuard? (w : Watch) : List Stmt → Option Guard
  | [] => none
  | s :: rest =>
    if w.startsWithSwap (s :: rest) then some .always
    else (w.guardInside? s).or (w.firstGuard? rest)

/-- What guards the first exchange inside a statement: in a block, in the branches of a condition
and in the body of a loop, but not in a function. -/
def guardInside? (w : Watch) : Stmt → Option Guard
  | .ifElse test consequent alternate _ =>
    let inBranches := (w.aloneGuard? consequent (w.guardInside? consequent)).or <|
      match alternate with
      | none => none
      | some a => w.aloneGuard? a (w.guardInside? a)
    match w.testRelation? test with
    | some r => if w.holdsSwap consequent.statements then some (.holding r) else inBranches
    | none => inBranches
  | .block body _ => w.firstGuard? body
  | .loop (.forLoop _ _ _ body _) _ | .loop (.forEach _ _ _ _ body _) _
  | .loop (.whileLoop _ body _) _ | .loop (.doWhile body _ _) _ =>
    w.aloneGuard? body (w.guardInside? body)
  | _ => none

end

def guardOf (w : Watch) (body : List Stmt) : Guard := (w.firstGuard? body).getD .absent

end Watch

end SortTrace.Synthesis
