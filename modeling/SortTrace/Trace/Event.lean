/-!
Events: what can happen to an array while it is being sorted. Every event that reads or changes the
array records what it found there, so that a trace can be checked and stepped through backwards.
-/

namespace SortTrace

inductive Relation where
  | eq | ne | lt | le | gt | ge
deriving DecidableEq

namespace Relation

/-- Strict and loose equality are the same relation: arrays hold integers only. -/
def ofSymbol? : String → Option Relation
  | "==" | "===" => some eq
  | "!=" | "!==" => some ne
  | "<" => some lt
  | "<=" => some le
  | ">" => some gt
  | ">=" => some ge
  | _ => none

def symbol : Relation → String
  | eq => "=="
  | ne => "!="
  | lt => "<"
  | le => "<="
  | gt => ">"
  | ge => ">="

def holds (r : Relation) (a b : Int64) : Bool :=
  match r with
  | eq => a == b
  | ne => a != b
  | lt => a < b
  | le => a ≤ b
  | gt => b < a
  | ge => b ≤ a

end Relation

/-- Why positions are highlighted: the element being inserted, the best one so far, or any other
reason. -/
inductive Color where
  | key | candidate | active
deriving DecidableEq

/-- One event. Recorded values are those before the event. -/
inductive Event where
  | init (array : List Int64)
  /-- Positions `i` and `j` were looked at; they held `x` and `y`. -/
  | compare (i j : Nat) (x y : Int64)
  /-- Positions `i` and `j`, which held `x` and `y`, were exchanged. -/
  | swap (i j : Nat) (x y : Int64)
  /-- Position `i`, which held `previous`, was overwritten. -/
  | set (i : Nat) (value previous : Int64)
  | highlight (indices : List Nat) (color : Color)
  /-- Positions that have their final value. -/
  | sorted (indices : List Nat)
  | complete
  | comment (message : String)
deriving DecidableEq

inductive EventKind where
  | init | compare | swap | set | highlight | sorted | complete | comment
deriving DecidableEq

def EventKind.all : List EventKind :=
  [.init, .compare, .swap, .set, .highlight, .sorted, .complete, .comment]

def EventKind.name : EventKind → String
  | init => "init"
  | compare => "compare"
  | swap => "swap"
  | set => "set"
  | highlight => "highlight"
  | sorted => "sorted"
  | complete => "complete"
  | comment => "comment"

namespace Event

def kind : Event → EventKind
  | init .. => .init
  | compare .. => .compare
  | swap .. => .swap
  | set .. => .set
  | highlight .. => .highlight
  | sorted .. => .sorted
  | complete => .complete
  | comment .. => .comment

def isMutation : Event → Bool
  | swap .. | set .. => true
  | _ => false

/-- Neither reads nor changes the array, and is not part of the frame of a trace. -/
def isAdvisory : Event → Bool
  | highlight .. | sorted .. | comment .. => true
  | _ => false

def indices : Event → List Nat
  | compare i j _ _ | swap i j _ _ => [i, j]
  | set i _ _ => [i]
  | highlight is _ | sorted is => is
  | init _ | complete | comment _ => []

end Event

end SortTrace
