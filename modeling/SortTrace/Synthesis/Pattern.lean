import SortTrace.Notice
import SortTrace.Script.Outline
import SortTrace.Script.Printer
import SortTrace.Synthesis.Config
import SortTrace.Trace.Event

/-!
Patterns: the shapes of expressions that do something to the watched array.

| shape      | for instance                            |
|------------|-----------------------------------------|
| access     | `a[j]`                                  |
| swap       | `[a[0], a[1]] = [a[1], a[0]]`           |
| set        | `a[2] = 7`                              |
| comparison | `a[j] > a[j + 1]`                       |

Nothing is evaluated: two expressions are the same when they print the same.
-/

namespace SortTrace.Synthesis

open Script

inductive Pattern where
  /-- A look at one element, at a position that is known if it is a number. -/
  | access (index : Option Nat)
  | swap (i j : Nat)
  | set (i : Nat) (value : Int64)
  | comparison (r : Relation) (i j : Nat)
  | unrecognized
deriving DecidableEq

/-- Why an expression has no pattern. All but the last are said of expressions that come close. -/
inductive Mismatch where
  | index (text : String)
  | access (text : String)
  | arity (found : Nat)
  | reversed (text : String)
  | value (text : String)
  | noShape
deriving DecidableEq

def Mismatch.message : Mismatch → String
  | index text => s!"index '{text}' is not a non-negative integer literal"
  | access text => s!"'{text}' is not an access on the tracked array"
  | arity found => s!"destructuring has {found} elements, expected 2"
  | reversed text => s!"right side '{text}' is not the reversed left side"
  | value text => s!"assigned value '{text}' is not a numeric literal"
  | noShape => "no shape matches"

/-- The same expression, by its printed text. -/
def sameText (a b : Expr) : Bool := a.text == b.text

structure Watch where
  name : String
  policy : IndexPolicy

namespace Watch

def elementIndex? (w : Watch) (e : Expr) : Option Expr :=
  match e.indexed? with
  | some (object, i) => if object.name? = some w.name then some i else none
  | none => none

def isElement (w : Watch) (e : Expr) : Bool := (w.elementIndex? e).isSome

/-- A relation or equality with an element of the watched array on at least one side. -/
def comparesElements (w : Watch) : Expr → Bool
  | .binary l op r _ => op.isComparison && (w.isElement l || w.isElement r)
  | _ => false

/-- An exchange of two elements by destructuring, with any indices. -/
def exchangesElements (w : Watch) : Expr → Bool
  | .assign .assign (.array [l₁, l₂] _) (.array [r₁, r₂] _) _ =>
    w.isElement l₁ && w.isElement l₂ && sameText r₁ l₂ && sameText r₂ l₁
  | _ => false

def position (w : Watch) (e : Expr) : Except Mismatch Nat :=
  match w.elementIndex? e with
  | none => .error (.access e.text)
  | some i =>
    match i.number?.bind Numeral.Signed.toIndex? with
    | some n => .ok n
    | none => .error (.index i.text)

def comparedPosition (w : Watch) (e : Expr) (placeholder : Nat) : Except Mismatch Nat :=
  match w.position e, w.policy with
  | .ok n, _ => .ok n
  | .error _, .placeholder => .ok placeholder
  | .error why, .strict => .error why

def swapPattern (w : Watch) (target value : Expr) : Except Mismatch Pattern :=
  match target.items?, value.items? with
  | some lhs, some rhs =>
    match lhs, rhs with
    | [l₁, l₂], [r₁, r₂] => do
      let i ← w.position l₁
      let j ← w.position l₂
      if sameText r₁ l₂ && sameText r₂ l₁ then return .swap i j
      else .error (.reversed value.text)
    | [_, _], _ => .error (.arity rhs.length)
    | _, _ => .error (.arity lhs.length)
  | _, _ => .error .noShape

def setPattern (w : Watch) (target value : Expr) : Except Mismatch Pattern := do
  let i ← w.position target
  match value.number? with
  | some x => return .set i x.toInt64
  | none => .error (.value value.text)

def comparisonPattern (w : Watch) (lhs : Expr) (op : BinOp) (rhs : Expr) :
    Except Mismatch Pattern :=
  match Relation.ofSymbol? op.text with
  | some r => do
    let i ← w.comparedPosition lhs 0
    let j ← w.comparedPosition rhs 1
    return .comparison r i j
  | none => .error .noShape

def recognize (w : Watch) (e : Expr) : Except Mismatch Pattern :=
  match e with
  | .index .. =>
    if w.isElement e then .ok (.access (w.position e).toOption) else .error .noShape
  | .assign .assign target value _ =>
    match target with
    | .array .. => if w.exchangesElements e then w.swapPattern target value else .error .noShape
    | .index .. => if w.isElement target then w.setPattern target value else .error .noShape
    | _ => .error .noShape
  | .binary l op r _ => if w.comparesElements e then w.comparisonPattern l op r else .error .noShape
  | _ => .error .noShape

def pattern (w : Watch) (e : Expr) : Pattern :=
  match w.recognize e with
  | .ok p => p
  | .error _ => .unrecognized

def notices (w : Watch) (e : Expr) : List Notice :=
  match w.recognize e with
  | .ok _ => []
  | .error .noShape => []
  | .error why => [.unrecognized e.text why.message]

def stmtPattern (w : Watch) : Stmt → Pattern
  | .expr e _ => w.pattern e
  | _ => .unrecognized

end Watch

end SortTrace.Synthesis
