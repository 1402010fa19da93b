import SortTrace.Script.Outline

/-!
The array that a script works on: the first one that a variable starts with, in visiting order,
function bodies included.
-/

namespace SortTrace.Synthesis

open Script

structure TrackedArray where
  name : String
  values : List Int64
deriving DecidableEq

inductive NoArray where
  | noLiteral
  | empty (name : String)
deriving DecidableEq

def NoArray.reason : NoArray → String
  | noLiteral => "no variable is initialized with an array literal"
  | empty name => s!"array '{name}' is empty"

namespace TrackedArray

/-- An element of an array literal: a number without its fraction, 0 for anything else. -/
def elementValue (e : Expr) : Int64 :=
  match e.number? with
  | some x => x.toInt64
  | none => 0

def ofDeclarator? (d : Declarator) : Option TrackedArray :=
  (d.init.bind Expr.items?).map fun items => ⟨d.name, items.map elementValue⟩

/-- The array of a script. An empty one is refused, even if others follow. -/
def ofProgram (p : Program) : Except NoArray TrackedArray :=
  match p.declarators.findSome? ofDeclarator? with
  | none => .error .noLiteral
  | some a => if a.values.isEmpty then .error (.empty a.name) else .ok a

end TrackedArray

end SortTrace.Synthesis
