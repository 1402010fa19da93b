import Mathlib.Logic.Function.Basic
import SortTrace.Script.Outline

/-!
What assignments do. Values are integers and arrays of integers; a store gives every name a value.
Expressions are names, whole numbers, signs, sums, differences and elements of arrays; everything
else has no value here.
-/

namespace SortTrace.Script

inductive Value where
  | int (n : Int)
  | array (elements : List Int)
deriving DecidableEq

abbrev Store := String → Value

def positionIn? (elements : List Int) (n : Int) : Option Nat :=
  if 0 ≤ n ∧ n < elements.length then some n.toNat else none

def Value.combine? (f : Int → Int → Int) : Option Value → Option Value → Option Value
  | some (.int a), some (.int b) => some (.int (f a b))
  | _, _ => none

theorem Value.combine?_int {f : Int → Int → Int} {v v' : Option Value} {n : Int}
    (value : combine? f v v' = some (.int n)) :
    ∃ j k, v = some (.int j) ∧ v' = some (.int k) := by
  unfold combine? at value
  split at value
  · exact ⟨_, _, rfl, rfl⟩
  · cases value

namespace Store

def element? : Option Value → Option Value → Option Value
  | some (.array elements), some (.int n) =>
    (positionIn? elements n).bind fun i => elements[i]?.map .int
  | _, _ => none

def evaluate (σ : Store) : Expr → Option Value
  | .number v _ => if v.isIntegral then some (.int v.floor) else none
  | .ident name _ => some (σ name)
  | .unary .neg e _ => Value.combine? (· - ·) (some (.int 0)) (σ.evaluate e)
  | .unary .plus e _ => Value.combine? (· + ·) (some (.int 0)) (σ.evaluate e)
  | .binary l .add r _ => Value.combine? (· + ·) (σ.evaluate l) (σ.evaluate r)
  | .binary l .sub r _ => Value.combine? (· - ·) (σ.evaluate l) (σ.evaluate r)
  | .index o i _ => element? (σ.evaluate o) (σ.evaluate i)
  | _ => none

def setElement (σ : Store) (name : String) : Option Value → Value → Option Store
  | some (.int n), .int x =>
    match σ name with
    | .array elements => (positionIn? elements n).map fun i =>
      Function.update σ name (.array (elements.set i x))
    | .int _ => none
  | _, _ => none

def assign (σ : Store) (target : Expr) (v : Value) : Option Store :=
  match target with
  | .ident name _ => some (Function.update σ name v)
  | .index (.ident name _) i _ => σ.setElement name (σ.evaluate i) v
  | _ => none

def execute (σ : Store) : Stmt → Option Store
  | .varDecl (.mk _ [.mk name (some value) _] _) _ =>
    (σ.evaluate value).map (Function.update σ name)
  | .expr (.assign .assign target value _) _ => (σ.evaluate value).bind (σ.assign target)
  | _ => none

def executeAll (σ : Store) : List Stmt → Option Store
  | [] => some σ
  | s :: rest => (σ.execute s).bind fun σ => σ.executeAll rest

end Store

end SortTrace.Script
