import SortTrace.Proofs.Script.BareOutline
import SortTrace.Proofs.Synthesis.ShellRun

/-!
Synthesis does not look at spans: the array, the plan and the outcome of a script are those of its
bare tree.
-/

namespace SortTrace.Synthesis

open Script

namespace TrackedArray

theorem elementValue_bare (e : Expr) : elementValue e.bare = elementValue e := by
  simp only [elementValue, Expr.number?_bare]

theorem ofDeclarator?_bare (d : Declarator) : ofDeclarator? d.bare = ofDeclarator? d := by
  simp only [ofDeclarator?, Declarator.init_bare, Declarator.name_bare]
  rcases d.init with _ | e
  · rfl
  simp only [Option.map_some, Option.bind_some, Expr.items?_bare]
  cases e.items? with
  | none => rfl
  | some items => simp [elementValue_bare]

theorem ofProgram_bare (p : Program) : ofProgram p.bare = ofProgram p := by
  have same : ofDeclarator? ∘ Declarator.bare = ofDeclarator? := funext ofDeclarator?_bare
  simp only [ofProgram, Program.declarators_bare, List.findSome?_map, same]

end TrackedArray

theorem traceOf_bare (config : Config) (p : Program) (a : TrackedArray) :
    traceOf config p.bare a = traceOf config p a := by
  rw [← traceOf_shell, Program.shell_bare, traceOf_shell]

end SortTrace.Synthesis
