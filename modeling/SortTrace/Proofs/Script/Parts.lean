import SortTrace.Proofs.Script.Extents

/-!
The nodes that a node is made of, and its outline: below the node stand the outlines of its parts.
-/

namespace SortTrace.Script

def Node.parts : Node → List Node
  | program p => p.body.map stmt
  | stmt s => match s with
    | .varDecl d _ => [varDecl d]
    | .func f _ => [func f]
    | .ifElse test consequent alternate _ =>
      expr test :: stmt consequent :: alternate.toList.map stmt
    | .loop l _ => [loop l]
    | .block body _ => body.map stmt
    | .ret value _ => value.toList.map expr
    | .expr e _ => [expr e]
    | .brk _ | .cont _ | .empty _ => []
  | varDecl d => d.declarators.map declarator
  | declarator d => d.init.toList.map expr
  | func f => match f with
    | .block _ _ body _ | .arrowBlock _ body _ => body.map stmt
    | .arrowValue _ value _ => [expr value]
  | loop l => match l with
    | .forLoop init test update body _ =>
      let header := match init with
        | .none => []
        | .varDecl d => [varDecl d]
        | .expr e => [expr e]
      header ++ test.toList.map expr ++ update.toList.map expr ++ [stmt body]
    | .forEach _ _ iterable _ body _ => [expr iterable, stmt body]
    | .whileLoop test body _ => [expr test, stmt body]
    | .doWhile body test _ => [stmt body, expr test]
  | expr e => match e with
    | .number .. | .str .. | .template .. | .bool .. | .null _ | .ident .. => []
    | .array items _ => items.map expr
    | .unary _ operand _ => [expr operand]
    | .update _ _ target _ => [expr target]
    | .binary lhs _ rhs _ => [expr lhs, expr rhs]
    | .assign _ target value _ => [expr target, expr value]
    | .conditional test consequent alternate _ => [expr test, expr consequent, expr alternate]
    | .call callee args _ => expr callee :: args.map expr
    | .member object _ _ => [expr object]
    | .index object i _ => [expr object, expr i]
    | .func f _ => [func f]

def Node.outline : Node → Outline
  | program p => p.outline
  | stmt s => s.outline
  | varDecl d => d.outline
  | declarator d => d.outline
  | func f => f.outline
  | loop l => l.outline
  | expr e => e.outline

theorem Stmt.outlines_map (ss : List Stmt) :
    Stmt.outlines ss = (ss.map Node.stmt).map Node.outline := by
  induction ss with
  | nil => rfl
  | cons s rest ih => simp [Stmt.outlines, ih, Node.outline]

theorem Expr.outlines_map (es : List Expr) :
    Expr.outlines es = (es.map Node.expr).map Node.outline := by
  induction es with
  | nil => rfl
  | cons e rest ih => simp [Expr.outlines, ih, Node.outline]

theorem Declarator.outlines_map (ds : List Declarator) :
    Declarator.outlines ds = (ds.map Node.declarator).map Node.outline := by
  induction ds with
  | nil => rfl
  | cons d rest ih => simp [Declarator.outlines, ih, Node.outline]

theorem Node.children_outline (n : Node) : n.outline.children = n.parts.map Node.outline := by
  cases n with
  | program p => exact Stmt.outlines_map p.body
  | stmt s =>
    cases s with
    | block body _ => exact Stmt.outlines_map body
    | ifElse _ _ alternate _ => cases alternate <;> rfl
    | ret value _ => cases value <;> rfl
    | _ => rfl
  | varDecl d =>
    cases d
    exact Declarator.outlines_map _
  | declarator d =>
    obtain ⟨_, init, _⟩ := d
    cases init <;> rfl
  | func f =>
    cases f with
    | arrowValue => rfl
    | _ => exact Stmt.outlines_map _
  | loop l =>
    cases l with
    | forLoop init test update body _ =>
      cases init <;> cases test <;> cases update <;> rfl
    | _ => rfl
  | expr e =>
    cases e with
    | array items _ => exact Expr.outlines_map items
    | call f args _ => exact congrArg (f.outline :: ·) (Expr.outlines_map args)
    | _ => rfl

theorem Node.node_outline (n : Node) : n.outline.node = n := by
  cases n with
  | program p => rfl
  | stmt s =>
    cases s with
    | ifElse _ _ alternate _ => cases alternate <;> rfl
    | ret value _ => cases value <;> rfl
    | _ => rfl
  | loop l => cases l <;> rfl
  | varDecl d => cases d; rfl
  | declarator d => rcases d with ⟨_, _ | _, _⟩ <;> rfl
  | func f => cases f <;> rfl
  | expr e => cases e <;> rfl

def Outline.Genuine (o : Outline) : Prop := o.node.outline = o

theorem Node.genuine (n : Node) : n.outline.Genuine :=
  congrArg Node.outline n.node_outline

namespace Outline.Genuine

variable {o : Outline}

theorem children_eq (genuine : o.Genuine) : o.children = o.node.parts.map Node.outline := by
  rw [← o.node.children_outline, show o.node.outline = o from genuine]

theorem children (genuine : o.Genuine) : ∀ x ∈ o.children, x.Genuine := by
  rw [genuine.children_eq]
  exact List.forall_mem_map.mpr fun n _ => n.genuine

theorem part {x : Outline} (genuine : o.Genuine) (child : x ∈ o.children) :
    x.node ∈ o.node.parts := by
  rw [genuine.children_eq] at child
  obtain ⟨m, inside, rfl⟩ := List.mem_map.mp child
  rwa [m.node_outline]

end Outline.Genuine

theorem Stmt.genuine (s : Stmt) : s.outline.Genuine := (Node.stmt s).genuine

theorem Loop.genuine (l : Loop) : l.outline.Genuine := (Node.loop l).genuine

theorem Program.genuine (p : Program) : p.outline.Genuine := (Node.program p).genuine

theorem Stmt.outlines_genuine (ss : List Stmt) : ∀ o ∈ Stmt.outlines ss, o.Genuine := by
  rw [Stmt.outlines_map]
  exact List.forall_mem_map.mpr fun n _ => n.genuine

end SortTrace.Script
