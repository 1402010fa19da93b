import Mathlib.Data.List.Forall2
import SortTrace.Proofs.Script.Bare

/-!
Masked trees: a tree without its spans, with 0 in place of each number in a list that a variable starts
with. Scripts that differ in the starting values of their arrays alone have one masked tree. A walk
meets the same nodes in a masked tree, but for those numbers.
-/

namespace SortTrace.Script

open Numeral

namespace Expr

/-- An element of a list with 0 in place of its number, which may have an operator in front. -/
def zeroed : Expr → Expr
  | number _ s => number .zero s
  | unary op (number _ s) s' => unary op (number .zero s) s'
  | e => e

def zeroedItems : Expr → Expr
  | array items s => array (items.map zeroed) s
  | e => e

end Expr

mutual

def Expr.masked : Expr → Expr
  | .number v _ => .number v {}
  | .str v _ => .str v {}
  | .template v _ => .template v {}
  | .bool v _ => .bool v {}
  | .null _ => .null {}
  | .ident name _ => .ident name {}
  | .array items _ => .array (Expr.maskeds items) {}
  | .unary op e _ => .unary op e.masked {}
  | .update op before e _ => .update op before e.masked {}
  | .binary l op r _ => .binary l.masked op r.masked {}
  | .assign op t v _ => .assign op t.masked v.masked {}
  | .conditional t c a _ => .conditional t.masked c.masked a.masked {}
  | .call f args _ => .call f.masked (Expr.maskeds args) {}
  | .member o p _ => .member o.masked p {}
  | .index o i _ => .index o.masked i.masked {}
  | .func f _ => .func f.masked {}

def Expr.maskeds : List Expr → List Expr
  | [] => []
  | e :: rest => e.masked :: Expr.maskeds rest

def Expr.maskedOption : Option Expr → Option Expr
  | none => none
  | some e => some e.masked

def Func.masked : Func → Func
  | .block name ps body _ => .block name ps (Stmt.maskeds body) {}
  | .arrowBlock ps body _ => .arrowBlock ps (Stmt.maskeds body) {}
  | .arrowValue ps value _ => .arrowValue ps value.masked {}

def Stmt.masked : Stmt → Stmt
  | .varDecl d _ => .varDecl d.masked {}
  | .func f _ => .func f.masked {}
  | .ifElse t c a _ => .ifElse t.masked c.masked (Stmt.maskedOption a) {}
  | .loop l _ => .loop l.masked {}
  | .block body _ => .block (Stmt.maskeds body) {}
  | .ret value _ => .ret (Expr.maskedOption value) {}
  | .brk _ => .brk {}
  | .cont _ => .cont {}
  | .empty _ => .empty {}
  | .expr e _ => .expr e.masked {}

def Stmt.maskeds : List Stmt → List Stmt
  | [] => []
  | s :: rest => s.masked :: Stmt.maskeds rest

def Stmt.maskedOption : Option Stmt → Option Stmt
  | none => none
  | some s => some s.masked

def VarDecl.masked : VarDecl → VarDecl
  | .mk kind ds _ => .mk kind (Declarator.maskeds ds) {}

def Declarator.masked : Declarator → Declarator
  | .mk name init _ => .mk name ((Expr.maskedOption init).map Expr.zeroedItems) {}

def Declarator.maskeds : List Declarator → List Declarator
  | [] => []
  | d :: rest => d.masked :: Declarator.maskeds rest

def Loop.masked : Loop → Loop
  | .forLoop init test update body _ =>
    .forLoop init.masked (Expr.maskedOption test) (Expr.maskedOption update) body.masked {}
  | .forEach decl binding iterable values body _ =>
    .forEach decl binding iterable.masked values body.masked {}
  | .whileLoop test body _ => .whileLoop test.masked body.masked {}
  | .doWhile body test _ => .doWhile body.masked test.masked {}

def ForInit.masked : ForInit → ForInit
  | .none => .none
  | .varDecl d => .varDecl d.masked
  | .expr e => .expr e.masked

end

def Program.masked (p : Program) : Program := ⟨Stmt.maskeds p.body, {}⟩

@[simp] theorem Expr.maskeds_eq_map (es : List Expr) : Expr.maskeds es = es.map Expr.masked := by
  induction es with
  | nil => rfl
  | cons e rest ih => simp [Expr.maskeds, ih]

@[simp] theorem Stmt.maskeds_eq_map (ss : List Stmt) : Stmt.maskeds ss = ss.map Stmt.masked := by
  induction ss with
  | nil => rfl
  | cons s rest ih => simp [Stmt.maskeds, ih]

@[simp] theorem Expr.maskedOption_eq_map (e : Option Expr) :
    Expr.maskedOption e = e.map Expr.masked := by
  cases e <;> rfl

@[simp] theorem Stmt.maskedOption_eq_map (s : Option Stmt) :
    Stmt.maskedOption s = s.map Stmt.masked := by
  cases s <;> rfl

mutual

theorem Expr.masked_bare : ∀ e : Expr, e.bare.masked = e.masked
  | .number .. | .str .. | .template .. | .bool .. | .null _ | .ident .. => rfl
  | .array items _ => by simp only [Expr.bare, Expr.masked, Expr.maskeds_bare items]
  | .unary _ e _ | .update _ _ e _ | .member e _ _ => by
    simp only [Expr.bare, Expr.masked, e.masked_bare]
  | .binary l _ r _ | .assign _ l r _ | .index l r _ => by
    simp only [Expr.bare, Expr.masked, l.masked_bare, r.masked_bare]
  | .conditional t c a _ => by
    simp only [Expr.bare, Expr.masked, t.masked_bare, c.masked_bare, a.masked_bare]
  | .call f args _ => by
    simp only [Expr.bare, Expr.masked, f.masked_bare, Expr.maskeds_bare args]
  | .func f _ => by simp only [Expr.bare, Expr.masked, f.masked_bare]

theorem Expr.maskeds_bare : ∀ es : List Expr,
    Expr.maskeds (Expr.bares es) = Expr.maskeds es
  | [] => rfl
  | e :: rest => by
    simp only [Expr.bares, Expr.maskeds, e.masked_bare, Expr.maskeds_bare rest]

theorem Expr.maskedOption_bare : ∀ e : Option Expr,
    Expr.maskedOption (Expr.bareOption e) = Expr.maskedOption e
  | none => rfl
  | some e => by simp only [Expr.bareOption, Expr.maskedOption, e.masked_bare]

theorem Func.masked_bare : ∀ f : Func, f.bare.masked = f.masked
  | .block _ _ body _ | .arrowBlock _ body _ => by
    simp only [Func.bare, Func.masked, Stmt.maskeds_bare body]
  | .arrowValue _ value _ => by simp only [Func.bare, Func.masked, value.masked_bare]

theorem Stmt.masked_bare : ∀ s : Stmt, s.bare.masked = s.masked
  | .varDecl d _ => by simp only [Stmt.bare, Stmt.masked, d.masked_bare]
  | .func f _ => by simp only [Stmt.bare, Stmt.masked, f.masked_bare]
  | .ifElse t c a _ => by
    simp only [Stmt.bare, Stmt.masked, t.masked_bare, c.masked_bare, Stmt.maskedOption_bare a]
  | .loop l _ => by simp only [Stmt.bare, Stmt.masked, l.masked_bare]
  | .block body _ => by simp only [Stmt.bare, Stmt.masked, Stmt.maskeds_bare body]
  | .ret value _ => by simp only [Stmt.bare, Stmt.masked, Expr.maskedOption_bare value]
  | .brk _ | .cont _ | .empty _ => rfl
  | .expr e _ => by simp only [Stmt.bare, Stmt.masked, e.masked_bare]

theorem Stmt.maskeds_bare : ∀ ss : List Stmt,
    Stmt.maskeds (Stmt.bares ss) = Stmt.maskeds ss
  | [] => rfl
  | s :: rest => by
    simp only [Stmt.bares, Stmt.maskeds, s.masked_bare, Stmt.maskeds_bare rest]

theorem Stmt.maskedOption_bare : ∀ s : Option Stmt,
    Stmt.maskedOption (Stmt.bareOption s) = Stmt.maskedOption s
  | none => rfl
  | some s => by simp only [Stmt.bareOption, Stmt.maskedOption, s.masked_bare]

theorem VarDecl.masked_bare : ∀ d : VarDecl, d.bare.masked = d.masked
  | .mk _ ds _ => by simp only [VarDecl.bare, VarDecl.masked, Declarator.maskeds_bare ds]

theorem Declarator.masked_bare : ∀ d : Declarator, d.bare.masked = d.masked
  | .mk _ init _ => by
    simp only [Declarator.bare, Declarator.masked, Expr.maskedOption_bare init]

theorem Declarator.maskeds_bare : ∀ ds : List Declarator,
    Declarator.maskeds (Declarator.bares ds) = Declarator.maskeds ds
  | [] => rfl
  | d :: rest => by
    simp only [Declarator.bares, Declarator.maskeds, d.masked_bare, Declarator.maskeds_bare rest]

theorem Loop.masked_bare : ∀ l : Loop, l.bare.masked = l.masked
  | .forLoop init test update body _ => by
    simp only [Loop.bare, Loop.masked, init.masked_bare, Expr.maskedOption_bare test,
      Expr.maskedOption_bare update, body.masked_bare]
  | .forEach _ _ e _ body _ | .whileLoop e body _ | .doWhile body e _ => by
    simp only [Loop.bare, Loop.masked, e.masked_bare, body.masked_bare]

theorem ForInit.masked_bare : ∀ init : ForInit, init.bare.masked = init.masked
  | .none => rfl
  | .varDecl d => by simp only [ForInit.bare, ForInit.masked, d.masked_bare]
  | .expr e => by simp only [ForInit.bare, ForInit.masked, e.masked_bare]

end

theorem Program.masked_bare (p : Program) : p.bare.masked = p.masked := by
  simp only [Program.bare, Program.masked, Stmt.maskeds_bare]

mutual

/-- Variables are declared in expressions only within functions, which shells leave out. -/
@[simp] theorem Expr.shell_masked : ∀ e : Expr, e.masked.shell = e.shell
  | .number .. | .str .. | .template .. | .bool .. | .null _ | .ident .. => rfl
  | .array items _ => by simp only [Expr.masked, Expr.shell, Expr.shells_masked items]
  | .unary _ e _ | .update _ _ e _ | .member e _ _ => by
    simp only [Expr.masked, Expr.shell, e.shell_masked]
  | .binary l _ r _ | .assign _ l r _ | .index l r _ => by
    simp only [Expr.masked, Expr.shell, l.shell_masked, r.shell_masked]
  | .conditional t c a _ => by
    simp only [Expr.masked, Expr.shell, t.shell_masked, c.shell_masked, a.shell_masked]
  | .call f args _ => by
    simp only [Expr.masked, Expr.shell, f.shell_masked, Expr.shells_masked args]
  | .func f _ => by cases f <;> rfl

theorem Expr.shells_masked : ∀ es : List Expr, Expr.shells (Expr.maskeds es) = Expr.shells es
  | [] => rfl
  | e :: rest => by
    simp only [Expr.maskeds, Expr.shells, e.shell_masked, Expr.shells_masked rest]

end

namespace Expr

theorem name?_masked (e : Expr) : e.masked.name? = e.name? := by
  rw [← name?_shell, shell_masked, name?_shell]

theorem number?_masked (e : Expr) : e.masked.number? = e.number? := by
  rw [← number?_shell, shell_masked, number?_shell]

theorem mentions_masked (name : String) (e : Expr) : e.masked.mentions name = e.mentions name := by
  rw [← mentions_shell, shell_masked, mentions_shell]

theorem items?_masked (e : Expr) : e.masked.items? = e.items?.map (·.map masked) := by
  cases e <;> simp [masked, items?]

theorem number?_zeroedItems (e : Expr) : e.zeroedItems.number? = e.number? := by
  cases e <;> rfl

theorem items?_zeroedItems (e : Expr) : e.zeroedItems.items? = e.items?.map (·.map zeroed) := by
  cases e <;> rfl

end Expr

theorem Declarator.name_masked (d : Declarator) : d.masked.name = d.name := by
  cases d
  rfl

theorem Declarator.init_masked (d : Declarator) :
    d.masked.init = d.init.map fun e => e.masked.zeroedItems := by
  obtain ⟨name, init, _⟩ := d
  cases init <;> rfl

@[simp] theorem Stmt.statements_masked (s : Stmt) :
    s.masked.statements = s.statements.map Stmt.masked := by
  cases s <;> simp [Stmt.masked, Stmt.statements]

@[simp] theorem Loop.body_masked (l : Loop) : l.masked.body = l.body.masked := by
  cases l <;> rfl

@[simp] theorem Loop.test?_masked (l : Loop) : l.masked.test? = l.test?.map Expr.masked := by
  cases l <;> simp [Loop.masked, Loop.test?]

end SortTrace.Script
