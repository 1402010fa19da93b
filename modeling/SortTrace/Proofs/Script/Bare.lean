import SortTrace.Proofs.Script.Shell
import SortTrace.Script.Grammar

/-!
Bare trees: a tree without its spans. Two trees are equal up to spans when their bare trees are
equal.
-/

namespace SortTrace.Script

mutual

def Expr.bare : Expr → Expr
  | .number v _ => .number v {}
  | .str v _ => .str v {}
  | .template v _ => .template v {}
  | .bool v _ => .bool v {}
  | .null _ => .null {}
  | .ident name _ => .ident name {}
  | .array items _ => .array (Expr.bares items) {}
  | .unary op e _ => .unary op e.bare {}
  | .update op before e _ => .update op before e.bare {}
  | .binary l op r _ => .binary l.bare op r.bare {}
  | .assign op t v _ => .assign op t.bare v.bare {}
  | .conditional t c a _ => .conditional t.bare c.bare a.bare {}
  | .call f args _ => .call f.bare (Expr.bares args) {}
  | .member o p _ => .member o.bare p {}
  | .index o i _ => .index o.bare i.bare {}
  | .func f _ => .func f.bare {}

def Expr.bares : List Expr → List Expr
  | [] => []
  | e :: rest => e.bare :: Expr.bares rest

def Expr.bareOption : Option Expr → Option Expr
  | none => none
  | some e => some e.bare

def Func.bare : Func → Func
  | .block name ps body _ => .block name ps (Stmt.bares body) {}
  | .arrowBlock ps body _ => .arrowBlock ps (Stmt.bares body) {}
  | .arrowValue ps value _ => .arrowValue ps value.bare {}

def Stmt.bare : Stmt → Stmt
  | .varDecl d _ => .varDecl d.bare {}
  | .func f _ => .func f.bare {}
  | .ifElse t c a _ => .ifElse t.bare c.bare (Stmt.bareOption a) {}
  | .loop l _ => .loop l.bare {}
  | .block body _ => .block (Stmt.bares body) {}
  | .ret value _ => .ret (Expr.bareOption value) {}
  | .brk _ => .brk {}
  | .cont _ => .cont {}
  | .empty _ => .empty {}
  | .expr e _ => .expr e.bare {}

def Stmt.bares : List Stmt → List Stmt
  | [] => []
  | s :: rest => s.bare :: Stmt.bares rest

def Stmt.bareOption : Option Stmt → Option Stmt
  | none => none
  | some s => some s.bare

def VarDecl.bare : VarDecl → VarDecl
  | .mk kind ds _ => .mk kind (Declarator.bares ds) {}

def Declarator.bare : Declarator → Declarator
  | .mk name init _ => .mk name (Expr.bareOption init) {}

def Declarator.bares : List Declarator → List Declarator
  | [] => []
  | d :: rest => d.bare :: Declarator.bares rest

def Loop.bare : Loop → Loop
  | .forLoop init test update body _ =>
    .forLoop init.bare (Expr.bareOption test) (Expr.bareOption update) body.bare {}
  | .forEach decl binding iterable values body _ =>
    .forEach decl binding iterable.bare values body.bare {}
  | .whileLoop test body _ => .whileLoop test.bare body.bare {}
  | .doWhile body test _ => .doWhile body.bare test.bare {}

def ForInit.bare : ForInit → ForInit
  | .none => .none
  | .varDecl d => .varDecl d.bare
  | .expr e => .expr e.bare

end

def Program.bare (p : Program) : Program := ⟨Stmt.bares p.body, {}⟩

@[simp] theorem Expr.bares_eq_map (es : List Expr) : Expr.bares es = es.map Expr.bare := by
  induction es with
  | nil => rfl
  | cons e rest ih => simp [Expr.bares, ih]

@[simp] theorem Stmt.bares_eq_map (ss : List Stmt) : Stmt.bares ss = ss.map Stmt.bare := by
  induction ss with
  | nil => rfl
  | cons s rest ih => simp [Stmt.bares, ih]

@[simp] theorem Declarator.bares_eq_map (ds : List Declarator) :
    Declarator.bares ds = ds.map Declarator.bare := by
  induction ds with
  | nil => rfl
  | cons d rest ih => simp [Declarator.bares, ih]

@[simp] theorem Expr.bareOption_eq_map (e : Option Expr) : Expr.bareOption e = e.map Expr.bare := by
  cases e <;> rfl

@[simp] theorem Stmt.bareOption_eq_map (s : Option Stmt) : Stmt.bareOption s = s.map Stmt.bare := by
  cases s <;> rfl

@[simp] theorem Expr.withSpan_bare (s : Span) (e : Expr) : (e.withSpan s).bare = e.bare := by
  cases e <;> rfl

@[simp] theorem Expr.bare_withSpan (e : Expr) : e.bare.withSpan {} = e.bare := by
  cases e <;> rfl

@[simp] theorem Expr.span_bare (e : Expr) : e.bare.span = {} := by
  cases e <;> rfl

@[simp] theorem Expr.number?_bare (e : Expr) : e.bare.number? = e.number? := by
  cases e with
  | unary op operand s => cases op <;> cases operand <;> rfl
  | _ => rfl

@[simp] theorem Expr.items?_bare (e : Expr) : e.bare.items? = e.items?.map (·.map Expr.bare) := by
  cases e <;> simp [Expr.bare, Expr.items?]

@[simp] theorem Declarator.name_bare (d : Declarator) : d.bare.name = d.name := by
  cases d
  rfl

@[simp] theorem Declarator.init_bare (d : Declarator) : d.bare.init = d.init.map Expr.bare := by
  cases d
  simp [Declarator.bare, Declarator.init]

mutual

@[simp] theorem Expr.shell_bare : ∀ e : Expr, e.bare.shell = e.shell
  | .number .. | .str .. | .template .. | .bool .. | .null _ | .ident .. => rfl
  | .array items _ => by simp only [Expr.bare, Expr.shell, Expr.shells_bare items]
  | .unary _ e _ | .update _ _ e _ | .member e _ _ => by
    simp only [Expr.bare, Expr.shell, e.shell_bare]
  | .binary l _ r _ | .assign _ l r _ | .index l r _ => by
    simp only [Expr.bare, Expr.shell, l.shell_bare, r.shell_bare]
  | .conditional t c a _ => by
    simp only [Expr.bare, Expr.shell, t.shell_bare, c.shell_bare, a.shell_bare]
  | .call f args _ => by
    simp only [Expr.bare, Expr.shell, f.shell_bare, Expr.shells_bare args]
  | .func f _ => by simp only [Expr.bare, Expr.shell, f.shell_bare]

theorem Expr.shells_bare : ∀ es : List Expr,
    Expr.shells (Expr.bares es) = Expr.shells es
  | [] => rfl
  | e :: rest => by
    simp only [Expr.bares, Expr.shells, e.shell_bare, Expr.shells_bare rest]

theorem Expr.shellOption_bare : ∀ e : Option Expr,
    Expr.shellOption (Expr.bareOption e) = Expr.shellOption e
  | none => rfl
  | some e => by simp only [Expr.bareOption, Expr.shellOption, e.shell_bare]

theorem Func.shell_bare : ∀ f : Func, f.bare.shell = f.shell
  | .block .. | .arrowBlock .. | .arrowValue .. => rfl

@[simp] theorem Stmt.shell_bare : ∀ s : Stmt, s.bare.shell = s.shell
  | .varDecl d _ => by simp only [Stmt.bare, Stmt.shell, d.shell_bare]
  | .func f _ => by simp only [Stmt.bare, Stmt.shell, f.shell_bare]
  | .ifElse t c a _ => by
    simp only [Stmt.bare, Stmt.shell, t.shell_bare, c.shell_bare,
      Stmt.shellOption_bare a]
  | .loop l _ => by simp only [Stmt.bare, Stmt.shell, l.shell_bare]
  | .block body _ => by simp only [Stmt.bare, Stmt.shell, Stmt.shells_bare body]
  | .ret value _ => by simp only [Stmt.bare, Stmt.shell, Expr.shellOption_bare value]
  | .brk _ | .cont _ | .empty _ => rfl
  | .expr e _ => by simp only [Stmt.bare, Stmt.shell, e.shell_bare]

theorem Stmt.shells_bare : ∀ ss : List Stmt,
    Stmt.shells (Stmt.bares ss) = Stmt.shells ss
  | [] => rfl
  | s :: rest => by
    simp only [Stmt.bares, Stmt.shells, s.shell_bare, Stmt.shells_bare rest]

theorem Stmt.shellOption_bare : ∀ s : Option Stmt,
    Stmt.shellOption (Stmt.bareOption s) = Stmt.shellOption s
  | none => rfl
  | some s => by simp only [Stmt.bareOption, Stmt.shellOption, s.shell_bare]

theorem VarDecl.shell_bare : ∀ d : VarDecl, d.bare.shell = d.shell
  | .mk _ ds _ => by simp only [VarDecl.bare, VarDecl.shell, Declarator.shells_bare ds]

theorem Declarator.shell_bare : ∀ d : Declarator, d.bare.shell = d.shell
  | .mk _ init _ => by
    simp only [Declarator.bare, Declarator.shell, Expr.shellOption_bare init]

theorem Declarator.shells_bare : ∀ ds : List Declarator,
    Declarator.shells (Declarator.bares ds) = Declarator.shells ds
  | [] => rfl
  | d :: rest => by
    simp only [Declarator.bares, Declarator.shells, d.shell_bare,
      Declarator.shells_bare rest]

theorem Loop.shell_bare : ∀ l : Loop, l.bare.shell = l.shell
  | .forLoop init test update body _ => by
    simp only [Loop.bare, Loop.shell, init.shell_bare, Expr.shellOption_bare test,
      Expr.shellOption_bare update, body.shell_bare]
  | .forEach _ _ e _ body _ | .whileLoop e body _ | .doWhile body e _ => by
    simp only [Loop.bare, Loop.shell, e.shell_bare, body.shell_bare]

theorem ForInit.shell_bare : ∀ init : ForInit, init.bare.shell = init.shell
  | .none => rfl
  | .varDecl d => by simp only [ForInit.bare, ForInit.shell, d.shell_bare]
  | .expr e => by simp only [ForInit.bare, ForInit.shell, e.shell_bare]

end

@[simp] theorem Program.shell_bare (p : Program) : p.bare.shell = p.shell := by
  simp only [Program.bare, Program.shell, Stmt.shells_bare]

@[simp] theorem Expr.text_bare (e : Expr) : e.bare.text = e.text := by
  rw [← e.bare.text_shell, e.shell_bare, e.text_shell]

mutual

@[simp] theorem Expr.isTarget_bare : ∀ e : Expr, e.bare.isTarget = e.isTarget
  | .array items _ => Expr.areTargets_bare items
  | .number .. | .str .. | .template .. | .bool .. | .null _ | .ident .. | .unary .. | .update ..
  | .binary .. | .assign .. | .conditional .. | .call .. | .member .. | .index .. | .func .. => rfl

theorem Expr.areTargets_bare : ∀ es : List Expr, Expr.areTargets (Expr.bares es) = Expr.areTargets es
  | [] => rfl
  | e :: rest => by
    simp only [Expr.bares, Expr.areTargets, e.isTarget_bare, Expr.areTargets_bare rest]

end

end SortTrace.Script
