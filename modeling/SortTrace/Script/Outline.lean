import SortTrace.Script.Tree

/-!
The outline of a script: its nodes in visiting order, each with the nodes directly below it. Every
search in a script is a walk over its outline that may stop at some nodes.
-/

namespace SortTrace.Script

inductive Node where
  | program (p : Program)
  | stmt (s : Stmt)
  | varDecl (d : VarDecl)
  | declarator (d : Declarator)
  | func (f : Func)
  | loop (l : Loop)
  | expr (e : Expr)

namespace Node

def span : Node → Span
  | program p => p.span
  | stmt s => s.span
  | varDecl d => d.span
  | declarator d => d.span
  | func f => f.span
  | loop l => l.span
  | expr e => e.span

def expr? : Node → Option Expr
  | expr e => some e
  | _ => none

def loop? : Node → Option Loop
  | loop l => some l
  | _ => none

def declarator? : Node → Option Declarator
  | declarator d => some d
  | _ => none

def isFunc : Node → Bool
  | func _ => true
  | _ => false

def isLoop : Node → Bool
  | loop _ => true
  | _ => false

end Node

inductive Outline where
  | mk (node : Node) (below : List Outline)

mutual

def Expr.outline (e : Expr) : Outline := .mk (.expr e) <|
  match e with
  | .number .. | .str .. | .template .. | .bool .. | .null _ | .ident .. => []
  | .array items _ => Expr.outlines items
  | .unary _ operand _ => [operand.outline]
  | .update _ _ target _ => [target.outline]
  | .binary l _ r _ => [l.outline, r.outline]
  | .assign _ t v _ => [t.outline, v.outline]
  | .conditional t c a _ => [t.outline, c.outline, a.outline]
  | .call f args _ => f.outline :: Expr.outlines args
  | .member o _ _ => [o.outline]
  | .index o i _ => [o.outline, i.outline]
  | .func f _ => [f.outline]

def Expr.outlines : List Expr → List Outline
  | [] => []
  | e :: rest => e.outline :: Expr.outlines rest

/-- Parameters and names are no nodes. -/
def Func.outline (f : Func) : Outline := .mk (.func f) <|
  match f with
  | .block _ _ body _ => Stmt.outlines body
  | .arrowBlock _ body _ => Stmt.outlines body
  | .arrowValue _ value _ => [value.outline]

def Stmt.outline (s : Stmt) : Outline := .mk (.stmt s) <|
  match s with
  | .varDecl d _ => [d.outline]
  | .func f _ => [f.outline]
  | .ifElse t c none _ => [t.outline, c.outline]
  | .ifElse t c (some a) _ => [t.outline, c.outline, a.outline]
  | .loop l _ => [l.outline]
  | .block body _ => Stmt.outlines body
  | .ret none _ => []
  | .ret (some e) _ => [e.outline]
  | .brk _ | .cont _ | .empty _ => []
  | .expr e _ => [e.outline]

def Stmt.outlines : List Stmt → List Outline
  | [] => []
  | s :: rest => s.outline :: Stmt.outlines rest

def VarDecl.outline (d : VarDecl) : Outline := .mk (.varDecl d) <|
  match d with
  | .mk _ ds _ => Declarator.outlines ds

def Declarator.outline (d : Declarator) : Outline := .mk (.declarator d) <|
  match d with
  | .mk _ none _ => []
  | .mk _ (some e) _ => [e.outline]

def Declarator.outlines : List Declarator → List Outline
  | [] => []
  | d :: rest => d.outline :: Declarator.outlines rest

/-- The parts of a loop in source order; the condition of a `do` loop comes last. -/
def Loop.outline (l : Loop) : Outline := .mk (.loop l) <|
  match l with
  | .forLoop init test update body _ =>
    init.outlines ++ (Expr.optionOutlines test ++ (Expr.optionOutlines update ++ [body.outline]))
  | .forEach _ _ iterable _ body _ => [iterable.outline, body.outline]
  | .whileLoop test body _ => [test.outline, body.outline]
  | .doWhile body test _ => [body.outline, test.outline]

def Expr.optionOutlines : Option Expr → List Outline
  | none => []
  | some e => [e.outline]

def ForInit.outlines : ForInit → List Outline
  | .none => []
  | .varDecl d => [d.outline]
  | .expr e => [e.outline]

end

def Program.outline (p : Program) : Outline := .mk (.program p) (Stmt.outlines p.body)

namespace Outline

def node : Outline → Node
  | mk n _ => n

mutual

/-- The outlines of all nodes in visiting order, parents first. Nothing below a node where `stop`
holds is visited. -/
def walk (stop : Node → Bool) (o : Outline) : List Outline :=
  match o with
  | mk n below => mk n below :: if stop n then [] else walkAll stop below

def walkAll (stop : Node → Bool) : List Outline → List Outline
  | [] => []
  | o :: rest => walk stop o ++ walkAll stop rest

end

def nodes (stop : Node → Bool) (o : Outline) : List Node := (o.walk stop).map node

def allNodes (o : Outline) : List Node := o.nodes fun _ => false

/-- The loops outside function bodies. -/
def loops (o : Outline) : List Loop := (o.nodes Node.isFunc).filterMap Node.loop?

/-- The nodes of a walk before the first loop, and those after it. The loop itself and everything
below it belong to neither. -/
def aroundLoop (stop : Node → Bool) (o : Outline) : List Node × List Node :=
  let visited := o.walk stop
  let outside := visited.takeWhile (!·.node.isLoop)
  match visited.dropWhile (!·.node.isLoop) with
  | [] => (outside.map node, [])
  | l :: rest => (outside.map node, (rest.drop ((l.walk stop).length - 1)).map node)

end Outline

namespace Program

/-- All expressions in visiting order, function bodies included. -/
def exprs (p : Program) : List Expr := p.outline.allNodes.filterMap Node.expr?

/-- All declared variables in visiting order, function bodies included. -/
def declarators (p : Program) : List Declarator := p.outline.allNodes.filterMap Node.declarator?

end Program

mutual

/-- The identifier occurs in the expression, outside functions. -/
def Expr.mentions (name : String) : Expr → Bool
  | .ident n _ => n == name
  | .number .. | .str .. | .template .. | .bool .. | .null _ | .func .. => false
  | .array items _ => Expr.anyMentions name items
  | .unary _ e _ => e.mentions name
  | .update _ _ e _ => e.mentions name
  | .binary l _ r _ => l.mentions name || r.mentions name
  | .assign _ t v _ => t.mentions name || v.mentions name
  | .conditional t c a _ => t.mentions name || c.mentions name || a.mentions name
  | .call f args _ => f.mentions name || Expr.anyMentions name args
  | .member o _ _ => o.mentions name
  | .index o i _ => o.mentions name || i.mentions name

def Expr.anyMentions (name : String) : List Expr → Bool
  | [] => false
  | e :: rest => e.mentions name || Expr.anyMentions name rest

end

end SortTrace.Script
