import SortTrace.Proofs.Results
import SortTrace.Proofs.Script.Legible

/-!
What the parser returns. All names and properties in an expression that was read from a text, in a
program or alone, are spelled as names and words.
-/

namespace SortTrace.Script

/-- The parser can return the expression: as one of those in a program or by itself. -/
inductive Expr.IsParsed (e : Expr) : Prop
  | inProgram {text : String} {p : Program} : Program.ofText text = .ok p → e ∈ p.exprs → IsParsed e
  | alone {text : String} {tokens : List Token} : scan text = .ok tokens →
      Expr.ofTokens tokens = .ok e → IsParsed e

theorem Program.ofTokens_madeFrom {tokens : List Token} {p : Program}
    (read : Program.ofTokens tokens = .ok p) :
    Outline.MadeFrom (tokens.map Token.kind) [p.outline] := by
  unfold Program.ofTokens at read
  dsimp only at read
  rcases parsed : Grammar.stmts (Grammar.allowance tokens) ⟨tokens, {}⟩ with e | ⟨body, c⟩
  · rw [parsed] at read
    cases read
  · rw [parsed] at read
    cases read
    have start : (Cursor.mk tokens {}).Inside tokens := List.suffix_refl tokens
    exact .other rfl ((Grammar.forward tokens _).stmts _ start body c parsed).1

theorem Program.builtFrom_of_ofText {text : String} {p : Program}
    (read : Program.ofText text = .ok p) :
    ∃ tokens, scan text = .ok tokens ∧ ∀ e ∈ p.exprs, e.BuiltFrom (tokens.map Token.kind) := by
  obtain ⟨tokens, scanned, read⟩ := ok_of_bind read
  refine ⟨tokens, scanned, fun e member => ?_⟩
  obtain ⟨n, visited, found⟩ := List.mem_filterMap.mp member
  obtain ⟨o, inside, rfl⟩ := List.mem_map.mp visited
  refine Program.ofTokens_madeFrom read o ?_ e found
  rw [Outline.walkAll, Outline.walkAll, List.append_nil]
  exact inside

theorem Expr.IsParsed.builtFrom {e : Expr} (parsed : e.IsParsed) : ∃ text tokens,
    scan text = .ok tokens ∧ e.BuiltFrom (tokens.map Token.kind) := by
  cases parsed with
  | @inProgram text p read member =>
    obtain ⟨tokens, scanned, built⟩ := Program.builtFrom_of_ofText read
    exact ⟨text, tokens, scanned, built e member⟩
  | @alone text tokens scanned read =>
    have start : (Cursor.mk tokens {}).Inside tokens := List.suffix_refl tokens
    unfold Expr.ofTokens at read
    rcases outcome : Grammar.assignment (Grammar.allowance tokens) ⟨tokens, {}⟩ with _ | ⟨e', c⟩
    · rw [outcome] at read
      cases read
    · rw [outcome] at read
      cases read
      exact ⟨text, tokens, scanned,
        ((Grammar.forward tokens _).assignment _ start _ c outcome).1⟩

theorem Expr.IsParsed.isSpelled {e : Expr} (parsed : e.IsParsed) : e.isSpelled = true := by
  obtain ⟨text, tokens, scanned, built⟩ := parsed.builtFrom
  exact built.isSpelled fun _ member => scanFrom_ident scanned member

namespace Outline

def exprs (os : List Outline) : List Expr :=
  (walkAll (fun _ => false) os).filterMap fun o => o.node.expr?

theorem exprs_cons (o : Outline) (rest : List Outline) :
    exprs (o :: rest) = exprs [o] ++ exprs rest := by
  simp only [exprs, walkAll, List.append_nil, List.filterMap_append]

theorem exprs_mk (n : Node) (below : List Outline) :
    exprs [mk n below] = n.expr?.toList ++ exprs below := by
  simp only [exprs, walkAll, walk, Bool.false_eq_true, if_false, List.append_nil,
    List.filterMap_cons, node]
  cases n.expr? <;> rfl

end Outline

/-- All expressions in a statement, function bodies included. -/
def Stmt.exprs (s : Stmt) : List Expr := Outline.exprs [s.outline]

theorem Expr.mem_exprs (e : Expr) : e ∈ Outline.exprs [e.outline] := by
  have shape : ∃ below, e.outline = .mk (.expr e) below := by cases e <;> exact ⟨_, rfl⟩
  obtain ⟨below, shape⟩ := shape
  rw [shape, Outline.exprs_mk]
  exact List.mem_cons_self

theorem Stmt.mem_exprs_expr {e d : Expr} {s : Span} (inside : d ∈ Outline.exprs [e.outline]) :
    d ∈ (Stmt.expr e s).exprs := by
  rw [Stmt.exprs, Stmt.outline, Outline.exprs_mk]
  exact inside

theorem Program.exprs_eq (p : Program) : p.exprs = p.body.flatMap Stmt.exprs := by
  have body (ss : List Stmt) : Outline.exprs (Stmt.outlines ss) = ss.flatMap Stmt.exprs := by
    induction ss with
    | nil => rfl
    | cons s rest ih => rw [Stmt.outlines, Outline.exprs_cons, ih, List.flatMap_cons]; rfl
  have whole : p.exprs = Outline.exprs [p.outline] := by
    rw [Program.exprs, Outline.allNodes, Outline.nodes, List.filterMap_map, Outline.exprs,
      Outline.walkAll, Outline.walkAll, List.append_nil]
    rfl
  rw [whole, Program.outline, Outline.exprs_mk, body]
  rfl

end SortTrace.Script
