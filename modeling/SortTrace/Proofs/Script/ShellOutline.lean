import SortTrace.Proofs.Script.Shell
import SortTrace.Proofs.Script.Walk

/-!
Walks that stay out of functions see no more than shells: the outline of a shell is the outline
without what is below its functions, and such a walk meets the same nodes in it.
-/

namespace SortTrace.Script

def Node.shell : Node → Node
  | program p => program p.shell
  | stmt s => stmt s.shell
  | varDecl d => varDecl d.shell
  | declarator d => declarator d.shell
  | func f => func f.shell
  | loop l => loop l.shell
  | expr e => expr e.shell

namespace Node

@[simp] theorem expr?_shell (n : Node) : n.shell.expr? = n.expr?.map Expr.shell := by
  cases n <;> rfl

@[simp] theorem loop?_shell (n : Node) : n.shell.loop? = n.loop?.map Loop.shell := by
  cases n <;> rfl

@[simp] theorem declarator?_shell (n : Node) :
    n.shell.declarator? = n.declarator?.map Declarator.shell := by
  cases n <;> rfl

@[simp] theorem isFunc_shell (n : Node) : n.shell.isFunc = n.isFunc := by
  cases n <;> rfl

@[simp] theorem isLoop_shell (n : Node) : n.shell.isLoop = n.isLoop := by
  cases n <;> rfl

end Node

mutual

def Outline.shell : Outline → Outline
  | .mk n below => .mk n.shell <|
    match n with
    | .func _ => []
    | _ => Outline.shells below

def Outline.shells : List Outline → List Outline
  | [] => []
  | o :: rest => o.shell :: Outline.shells rest

end

@[simp] theorem Outline.shells_eq_map (os : List Outline) :
    Outline.shells os = os.map Outline.shell := by
  induction os with
  | nil => rfl
  | cons o rest ih => simp [Outline.shells, ih]

@[simp] theorem Outline.node_shell (o : Outline) : o.shell.node = o.node.shell := by
  cases o
  rfl

mutual

@[simp] theorem Expr.outline_shell : ∀ e : Expr, e.shell.outline = e.outline.shell
  | .number .. | .str .. | .template .. | .bool .. | .null _ | .ident .. => rfl
  | .array items _ => by
    simp only [Expr.outline, Expr.shell, Outline.shell, Node.shell, Expr.outlines_shell items]
  | .unary _ e _ | .update _ _ e _ | .member e _ _ => by
    simp only [Expr.outline, Expr.shell, Outline.shell, Outline.shells, Node.shell, e.outline_shell]
  | .binary l _ r _ | .assign _ l r _ | .index l r _ => by
    simp only [Expr.outline, Expr.shell, Outline.shell, Outline.shells, Node.shell, l.outline_shell,
      r.outline_shell]
  | .conditional t c a _ => by
    simp only [Expr.outline, Expr.shell, Outline.shell, Outline.shells, Node.shell, t.outline_shell,
      c.outline_shell, a.outline_shell]
  | .call f args _ => by
    simp only [Expr.outline, Expr.shell, Outline.shell, Outline.shells, Node.shell, f.outline_shell,
      Expr.outlines_shell args]
  | .func f _ => by
    simp only [Expr.outline, Expr.shell, Outline.shell, Outline.shells, Node.shell, f.outline_shell]

theorem Expr.outlines_shell : ∀ es : List Expr,
    Expr.outlines (Expr.shells es) = Outline.shells (Expr.outlines es)
  | [] => rfl
  | e :: rest => by
    simp only [Expr.outlines, Expr.shells, Outline.shells, e.outline_shell,
      Expr.outlines_shell rest]

@[simp] theorem Func.outline_shell : ∀ f : Func, f.shell.outline = f.outline.shell
  | .block .. | .arrowBlock .. | .arrowValue .. => rfl

@[simp] theorem Stmt.outline_shell : ∀ s : Stmt, s.shell.outline = s.outline.shell
  | .varDecl d _ => by
    simp only [Stmt.outline, Stmt.shell, Outline.shell, Outline.shells, Node.shell, d.outline_shell]
  | .func f _ => by
    simp only [Stmt.outline, Stmt.shell, Outline.shell, Outline.shells, Node.shell, f.outline_shell]
  | .ifElse t c none _ => by
    simp only [Stmt.outline, Stmt.shell, Stmt.shellOption, Outline.shell, Outline.shells,
      Node.shell, t.outline_shell, c.outline_shell]
  | .ifElse t c (some a) _ => by
    simp only [Stmt.outline, Stmt.shell, Stmt.shellOption, Outline.shell, Outline.shells,
      Node.shell, t.outline_shell, c.outline_shell, a.outline_shell]
  | .loop l _ => by
    simp only [Stmt.outline, Stmt.shell, Outline.shell, Outline.shells, Node.shell, l.outline_shell]
  | .block body _ => by
    simp only [Stmt.outline, Stmt.shell, Outline.shell, Node.shell, Stmt.outlines_shell body]
  | .ret none _ | .brk _ | .cont _ | .empty _ => rfl
  | .ret (some e) _ | .expr e _ => by
    simp only [Stmt.outline, Stmt.shell, Expr.shellOption, Outline.shell, Outline.shells,
      Node.shell, e.outline_shell]

theorem Stmt.outlines_shell : ∀ ss : List Stmt,
    Stmt.outlines (Stmt.shells ss) = Outline.shells (Stmt.outlines ss)
  | [] => rfl
  | s :: rest => by
    simp only [Stmt.outlines, Stmt.shells, Outline.shells, s.outline_shell,
      Stmt.outlines_shell rest]

@[simp] theorem VarDecl.outline_shell : ∀ d : VarDecl, d.shell.outline = d.outline.shell
  | .mk _ ds _ => by
    simp only [VarDecl.outline, VarDecl.shell, Outline.shell, Node.shell,
      Declarator.outlines_shell ds]

@[simp] theorem Declarator.outline_shell : ∀ d : Declarator, d.shell.outline = d.outline.shell
  | .mk _ none _ => rfl
  | .mk _ (some e) _ => by
    simp only [Declarator.outline, Declarator.shell, Expr.shellOption, Outline.shell,
      Outline.shells, Node.shell, e.outline_shell]

theorem Declarator.outlines_shell : ∀ ds : List Declarator,
    Declarator.outlines (Declarator.shells ds) = Outline.shells (Declarator.outlines ds)
  | [] => rfl
  | d :: rest => by
    simp only [Declarator.outlines, Declarator.shells, Outline.shells, d.outline_shell,
      Declarator.outlines_shell rest]

@[simp] theorem Loop.outline_shell : ∀ l : Loop, l.shell.outline = l.outline.shell
  | .forLoop init test update body _ => by
    simp only [Loop.outline, Loop.shell, Outline.shell, Node.shell, init.outlines_shell,
      Expr.optionOutlines_shell test, Expr.optionOutlines_shell update, body.outline_shell,
      Outline.shells_eq_map, List.map_append, List.map_cons, List.map_nil]
  | .forEach _ _ e _ body _ | .whileLoop e body _ | .doWhile body e _ => by
    simp only [Loop.outline, Loop.shell, Outline.shell, Outline.shells, Node.shell, e.outline_shell,
      body.outline_shell]

theorem Expr.optionOutlines_shell : ∀ e : Option Expr,
    Expr.optionOutlines (Expr.shellOption e) = Outline.shells (Expr.optionOutlines e)
  | none => rfl
  | some e => by
    simp only [Expr.optionOutlines, Expr.shellOption, Outline.shells, e.outline_shell]

theorem ForInit.outlines_shell :
    ∀ init : ForInit, init.shell.outlines = Outline.shells init.outlines
  | .none => rfl
  | .varDecl d => by
    simp only [ForInit.outlines, ForInit.shell, Outline.shells, d.outline_shell]
  | .expr e => by
    simp only [ForInit.outlines, ForInit.shell, Outline.shells, e.outline_shell]

end

@[simp] theorem Program.outline_shell (p : Program) : p.shell.outline = p.outline.shell := by
  simp only [Program.outline, Program.shell, Outline.shell, Node.shell, Stmt.outlines_shell]

/-- Stops at every function, and otherwise decides by what a node is: not by where it stands, and
not by what is in its functions. -/
structure Shallow (stop : Node → Bool) : Prop where
  outside : StaysOut stop
  blind : ∀ n : Node, stop n.shell = stop n

theorem filterMap_commutes {α : Type} {g : Node → Node} (f : α → α) (pick : Node → Option α)
    (commutes : ∀ n : Node, pick (g n) = (pick n).map f) (ns : List Node) :
    (ns.map g).filterMap pick = (ns.filterMap pick).map f := by
  rw [List.filterMap_map, List.map_filterMap]
  exact congrArg (List.filterMap · ns) (funext commutes)

namespace Outline

variable {stop : Node → Bool}

mutual

theorem walk_shell (shallow : Shallow stop) : ∀ o : Outline,
    o.shell.walk stop = (o.walk stop).map shell
  | mk (.func f) below => by
    have first := shallow.outside f
    have second := shallow.outside f.shell
    simp only [shell, walk, Node.shell, first, second, if_true, List.map_cons, List.map_nil]
  | mk (.program _) below | mk (.stmt _) below | mk (.varDecl _) below | mk (.declarator _) below
  | mk (.loop _) below | mk (.expr _) below => by
    simp only [shell, walk, shallow.blind, walkAll_shell shallow below, List.map_cons,
      apply_ite (List.map shell), List.map_nil]

theorem walkAll_shell (shallow : Shallow stop) : ∀ os : List Outline,
    walkAll stop (shells os) = (walkAll stop os).map shell
  | [] => rfl
  | o :: rest => by
    simp only [shells, walkAll, walk_shell shallow o, walkAll_shell shallow rest, List.map_append]

end

theorem map_node_shell (os : List Outline) :
    (os.map shell).map node = (os.map node).map Node.shell := by
  simp

theorem nodes_shell (shallow : Shallow stop) (o : Outline) :
    o.shell.nodes stop = (o.nodes stop).map Node.shell := by
  rw [nodes, walk_shell shallow, map_node_shell, nodes]

theorem aroundLoop_shell (shallow : Shallow stop) (o : Outline) :
    o.shell.aroundLoop stop =
      ((o.aroundLoop stop).1.map Node.shell, (o.aroundLoop stop).2.map Node.shell) := by
  have outside : (fun o : Outline => !o.node.isLoop) ∘ shell = fun o => !o.node.isLoop := by
    funext o
    simp
  simp only [aroundLoop, walk_shell shallow, List.takeWhile_map, List.dropWhile_map, outside]
  cases List.dropWhile (fun o : Outline => !o.node.isLoop) (o.walk stop) with
  | nil => simp
  | cons l rest =>
    simp only [List.map_cons, walk_shell shallow, List.length_map, ← List.map_drop, map_node_shell]

@[simp] theorem loops_shell (o : Outline) : o.shell.loops = o.loops.map Loop.shell := by
  rw [loops, nodes_shell ⟨fun _ => rfl, Node.isFunc_shell⟩,
    filterMap_commutes _ _ Node.loop?_shell, loops]

end Outline

end SortTrace.Script
