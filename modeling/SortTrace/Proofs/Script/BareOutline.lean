import SortTrace.Proofs.Script.Bare
import SortTrace.Proofs.Script.ShellOutline

/-!
Walks do not look at spans: the outline of a bare tree is the bare outline, and a walk that stops by
what a node is, not by where it stands, meets the same nodes in it.
-/

namespace SortTrace.Script

def Node.bare : Node → Node
  | program p => program p.bare
  | stmt s => stmt s.bare
  | varDecl d => varDecl d.bare
  | declarator d => declarator d.bare
  | func f => func f.bare
  | loop l => loop l.bare
  | expr e => expr e.bare

namespace Node

@[simp] theorem declarator?_bare (n : Node) :
    n.bare.declarator? = n.declarator?.map Declarator.bare := by
  cases n <;> rfl

end Node

mutual

def Outline.bare : Outline → Outline
  | .mk n below => .mk n.bare (Outline.bares below)

def Outline.bares : List Outline → List Outline
  | [] => []
  | o :: rest => o.bare :: Outline.bares rest

end

@[simp] theorem Outline.bares_eq_map (os : List Outline) : Outline.bares os = os.map Outline.bare := by
  induction os with
  | nil => rfl
  | cons o rest ih => simp [Outline.bares, ih]

@[simp] theorem Outline.node_bare (o : Outline) : o.bare.node = o.node.bare := by
  cases o
  rfl

mutual

@[simp] theorem Expr.outline_bare : ∀ e : Expr, e.bare.outline = e.outline.bare
  | .number .. | .str .. | .template .. | .bool .. | .null _ | .ident .. => rfl
  | .array items _ => by
    simp only [Expr.outline, Expr.bare, Outline.bare, Node.bare, Expr.outlines_bare items]
  | .unary _ e _ | .update _ _ e _ | .member e _ _ => by
    simp only [Expr.outline, Expr.bare, Outline.bare, Outline.bares, Node.bare, e.outline_bare]
  | .binary l _ r _ | .assign _ l r _ | .index l r _ => by
    simp only [Expr.outline, Expr.bare, Outline.bare, Outline.bares, Node.bare, l.outline_bare,
      r.outline_bare]
  | .conditional t c a _ => by
    simp only [Expr.outline, Expr.bare, Outline.bare, Outline.bares, Node.bare, t.outline_bare,
      c.outline_bare, a.outline_bare]
  | .call f args _ => by
    simp only [Expr.outline, Expr.bare, Outline.bare, Outline.bares, Node.bare, f.outline_bare,
      Expr.outlines_bare args]
  | .func f _ => by
    simp only [Expr.outline, Expr.bare, Outline.bare, Outline.bares, Node.bare, f.outline_bare]

theorem Expr.outlines_bare : ∀ es : List Expr,
    Expr.outlines (Expr.bares es) = Outline.bares (Expr.outlines es)
  | [] => rfl
  | e :: rest => by
    simp only [Expr.outlines, Expr.bares, Outline.bares, e.outline_bare, Expr.outlines_bare rest]

@[simp] theorem Func.outline_bare : ∀ f : Func, f.bare.outline = f.outline.bare
  | .block _ _ body _ | .arrowBlock _ body _ => by
    simp only [Func.outline, Func.bare, Outline.bare, Node.bare, Stmt.outlines_bare body]
  | .arrowValue _ value _ => by
    simp only [Func.outline, Func.bare, Outline.bare, Outline.bares, Node.bare, value.outline_bare]

@[simp] theorem Stmt.outline_bare : ∀ s : Stmt, s.bare.outline = s.outline.bare
  | .varDecl d _ => by
    simp only [Stmt.outline, Stmt.bare, Outline.bare, Outline.bares, Node.bare, d.outline_bare]
  | .func f _ => by
    simp only [Stmt.outline, Stmt.bare, Outline.bare, Outline.bares, Node.bare, f.outline_bare]
  | .ifElse t c none _ => by
    simp only [Stmt.outline, Stmt.bare, Stmt.bareOption, Outline.bare, Outline.bares, Node.bare,
      t.outline_bare, c.outline_bare]
  | .ifElse t c (some a) _ => by
    simp only [Stmt.outline, Stmt.bare, Stmt.bareOption, Outline.bare, Outline.bares, Node.bare,
      t.outline_bare, c.outline_bare, a.outline_bare]
  | .loop l _ => by
    simp only [Stmt.outline, Stmt.bare, Outline.bare, Outline.bares, Node.bare, l.outline_bare]
  | .block body _ => by
    simp only [Stmt.outline, Stmt.bare, Outline.bare, Node.bare, Stmt.outlines_bare body]
  | .ret none _ | .brk _ | .cont _ | .empty _ => rfl
  | .ret (some e) _ | .expr e _ => by
    simp only [Stmt.outline, Stmt.bare, Expr.bareOption, Outline.bare, Outline.bares, Node.bare,
      e.outline_bare]

theorem Stmt.outlines_bare : ∀ ss : List Stmt,
    Stmt.outlines (Stmt.bares ss) = Outline.bares (Stmt.outlines ss)
  | [] => rfl
  | s :: rest => by
    simp only [Stmt.outlines, Stmt.bares, Outline.bares, s.outline_bare, Stmt.outlines_bare rest]

@[simp] theorem VarDecl.outline_bare : ∀ d : VarDecl, d.bare.outline = d.outline.bare
  | .mk _ ds _ => by
    simp only [VarDecl.outline, VarDecl.bare, Outline.bare, Node.bare, Declarator.outlines_bare ds]

@[simp] theorem Declarator.outline_bare : ∀ d : Declarator, d.bare.outline = d.outline.bare
  | .mk _ none _ => rfl
  | .mk _ (some e) _ => by
    simp only [Declarator.outline, Declarator.bare, Expr.bareOption, Outline.bare, Outline.bares,
      Node.bare, e.outline_bare]

theorem Declarator.outlines_bare : ∀ ds : List Declarator,
    Declarator.outlines (Declarator.bares ds) = Outline.bares (Declarator.outlines ds)
  | [] => rfl
  | d :: rest => by
    simp only [Declarator.outlines, Declarator.bares, Outline.bares, d.outline_bare,
      Declarator.outlines_bare rest]

@[simp] theorem Loop.outline_bare : ∀ l : Loop, l.bare.outline = l.outline.bare
  | .forLoop init test update body _ => by
    simp only [Loop.outline, Loop.bare, Outline.bare, Node.bare, init.outlines_bare,
      Expr.optionOutlines_bare test, Expr.optionOutlines_bare update, body.outline_bare,
      Outline.bares_eq_map, List.map_append, List.map_cons, List.map_nil]
  | .forEach _ _ e _ body _ | .whileLoop e body _ | .doWhile body e _ => by
    simp only [Loop.outline, Loop.bare, Outline.bare, Outline.bares, Node.bare, e.outline_bare,
      body.outline_bare]

theorem Expr.optionOutlines_bare : ∀ e : Option Expr,
    Expr.optionOutlines (Expr.bareOption e) = Outline.bares (Expr.optionOutlines e)
  | none => rfl
  | some e => by
    simp only [Expr.optionOutlines, Expr.bareOption, Outline.bares, e.outline_bare]

theorem ForInit.outlines_bare : ∀ init : ForInit, init.bare.outlines = Outline.bares init.outlines
  | .none => rfl
  | .varDecl d => by
    simp only [ForInit.outlines, ForInit.bare, Outline.bares, d.outline_bare]
  | .expr e => by
    simp only [ForInit.outlines, ForInit.bare, Outline.bares, e.outline_bare]

end

@[simp] theorem Program.outline_bare (p : Program) : p.bare.outline = p.outline.bare := by
  simp only [Program.outline, Program.bare, Outline.bare, Node.bare, Stmt.outlines_bare]

/-- Decides by what a node is, not by where it stands. -/
def Blind (stop : Node → Bool) : Prop := ∀ n : Node, stop n.bare = stop n

namespace Outline

variable {stop : Node → Bool}

mutual

theorem walk_bare (blind : Blind stop) : ∀ o : Outline, o.bare.walk stop = (o.walk stop).map bare
  | mk n below => by
    simp only [bare, walk, blind n, walkAll_bare blind below]
    cases stop n <;> simp [bare]

theorem walkAll_bare (blind : Blind stop) : ∀ os : List Outline,
    walkAll stop (bares os) = (walkAll stop os).map bare
  | [] => rfl
  | o :: rest => by
    simp only [bares, walkAll, walk_bare blind o, walkAll_bare blind rest, List.map_append]

end

theorem map_node_bare (os : List Outline) : (os.map bare).map node = (os.map node).map Node.bare := by
  simp

theorem nodes_bare (blind : Blind stop) (o : Outline) :
    o.bare.nodes stop = (o.nodes stop).map Node.bare := by
  rw [nodes, walk_bare blind, map_node_bare, nodes]

end Outline

@[simp] theorem Program.declarators_bare (p : Program) :
    p.bare.declarators = p.declarators.map Declarator.bare := by
  have blind : Blind fun _ => false := fun _ => rfl
  rw [declarators, outline_bare, Outline.allNodes, Outline.nodes_bare blind,
    filterMap_commutes _ _ Node.declarator?_bare]
  rfl

end SortTrace.Script
