import SortTrace.Script.Outline
import SortTrace.Script.Printer

/-!
Shells: a tree without its spans and without the bodies of its functions. Printing, the search for
names and the shapes of expressions see no more than that.
-/

namespace SortTrace.Script

mutual

def Expr.shell : Expr → Expr
  | .number v _ => .number v {}
  | .str v _ => .str v {}
  | .template v _ => .template v {}
  | .bool v _ => .bool v {}
  | .null _ => .null {}
  | .ident name _ => .ident name {}
  | .array items _ => .array (Expr.shells items) {}
  | .unary op e _ => .unary op e.shell {}
  | .update op before e _ => .update op before e.shell {}
  | .binary l op r _ => .binary l.shell op r.shell {}
  | .assign op t v _ => .assign op t.shell v.shell {}
  | .conditional t c a _ => .conditional t.shell c.shell a.shell {}
  | .call f args _ => .call f.shell (Expr.shells args) {}
  | .member o p _ => .member o.shell p {}
  | .index o i _ => .index o.shell i.shell {}
  | .func f _ => .func f.shell {}

def Expr.shells : List Expr → List Expr
  | [] => []
  | e :: rest => e.shell :: Expr.shells rest

def Expr.shellOption : Option Expr → Option Expr
  | none => none
  | some e => some e.shell

def Func.shell : Func → Func
  | .block name ps _ _ => .block name ps [] {}
  | .arrowBlock ps _ _ | .arrowValue ps _ _ => .arrowBlock ps [] {}

def Stmt.shell : Stmt → Stmt
  | .varDecl d _ => .varDecl d.shell {}
  | .func f _ => .func f.shell {}
  | .ifElse t c a _ => .ifElse t.shell c.shell (Stmt.shellOption a) {}
  | .loop l _ => .loop l.shell {}
  | .block body _ => .block (Stmt.shells body) {}
  | .ret value _ => .ret (Expr.shellOption value) {}
  | .brk _ => .brk {}
  | .cont _ => .cont {}
  | .empty _ => .empty {}
  | .expr e _ => .expr e.shell {}

def Stmt.shells : List Stmt → List Stmt
  | [] => []
  | s :: rest => s.shell :: Stmt.shells rest

def Stmt.shellOption : Option Stmt → Option Stmt
  | none => none
  | some s => some s.shell

def VarDecl.shell : VarDecl → VarDecl
  | .mk kind ds _ => .mk kind (Declarator.shells ds) {}

def Declarator.shell : Declarator → Declarator
  | .mk name init _ => .mk name (Expr.shellOption init) {}

def Declarator.shells : List Declarator → List Declarator
  | [] => []
  | d :: rest => d.shell :: Declarator.shells rest

def Loop.shell : Loop → Loop
  | .forLoop init test update body _ =>
    .forLoop init.shell (Expr.shellOption test) (Expr.shellOption update) body.shell {}
  | .forEach decl binding iterable values body _ =>
    .forEach decl binding iterable.shell values body.shell {}
  | .whileLoop test body _ => .whileLoop test.shell body.shell {}
  | .doWhile body test _ => .doWhile body.shell test.shell {}

def ForInit.shell : ForInit → ForInit
  | .none => .none
  | .varDecl d => .varDecl d.shell
  | .expr e => .expr e.shell

end

def Program.shell (p : Program) : Program := ⟨Stmt.shells p.body, {}⟩

@[simp] theorem Expr.shells_eq_map (es : List Expr) : Expr.shells es = es.map Expr.shell := by
  induction es with
  | nil => rfl
  | cons e rest ih => simp [Expr.shells, ih]

@[simp] theorem Stmt.shells_eq_map (ss : List Stmt) : Stmt.shells ss = ss.map Stmt.shell := by
  induction ss with
  | nil => rfl
  | cons s rest ih => simp [Stmt.shells, ih]

@[simp] theorem Declarator.shells_eq_map (ds : List Declarator) :
    Declarator.shells ds = ds.map Declarator.shell := by
  induction ds with
  | nil => rfl
  | cons d rest ih => simp [Declarator.shells, ih]

@[simp] theorem Expr.shellOption_eq_map (e : Option Expr) :
    Expr.shellOption e = e.map Expr.shell := by
  cases e <;> rfl

@[simp] theorem Stmt.shellOption_eq_map (s : Option Stmt) :
    Stmt.shellOption s = s.map Stmt.shell := by
  cases s <;> rfl

@[simp] theorem Expr.level_shell (e : Expr) : e.shell.level = e.level := by
  cases e <;> rfl

@[simp] theorem Expr.name?_shell (e : Expr) : e.shell.name? = e.name? := by
  cases e <;> rfl

@[simp] theorem Expr.number?_shell (e : Expr) : e.shell.number? = e.number? := by
  cases e with
  | unary op operand s => cases op <;> cases operand <;> rfl
  | _ => rfl

@[simp] theorem Expr.indexed?_shell (e : Expr) :
    e.shell.indexed? = e.indexed?.map fun (o, i) => (o.shell, i.shell) := by
  cases e <;> rfl

@[simp] theorem Expr.items?_shell (e : Expr) :
    e.shell.items? = e.items?.map (·.map Expr.shell) := by
  cases e <;> simp [Expr.shell, Expr.items?]

@[simp] theorem Stmt.statements_shell (s : Stmt) :
    s.shell.statements = s.statements.map Stmt.shell := by
  cases s <;> simp [Stmt.shell, Stmt.statements]

@[simp] theorem Declarator.name_shell (d : Declarator) : d.shell.name = d.name := by
  cases d
  rfl

@[simp] theorem Declarator.init_shell (d : Declarator) : d.shell.init = d.init.map Expr.shell := by
  cases d
  simp [Declarator.shell, Declarator.init]

@[simp] theorem Loop.body_shell (l : Loop) : l.shell.body = l.body.shell := by
  cases l <;> rfl

@[simp] theorem Loop.test?_shell (l : Loop) : l.shell.test? = l.test?.map Expr.shell := by
  cases l <;> simp [Loop.shell, Loop.test?]

@[simp] theorem Func.header_shell (f : Func) : f.shell.header = f.header := by
  cases f <;> rfl

mutual

@[simp] theorem Expr.text_shell : ∀ e : Expr, e.shell.text = e.text
  | .number .. | .str .. | .template .. | .bool .. | .null _ | .ident .. => rfl
  | .array items _ => by simp only [Expr.shell, Expr.text, Expr.listText_shell items]
  | .unary op e _ => by simp only [Expr.shell, Expr.text, Expr.inPlace, level_shell, e.text_shell]
  | .update op before e _ => by
    simp only [Expr.shell, Expr.text, Expr.inPlace, level_shell, e.text_shell]
  | .binary l op r _ => by
    simp only [Expr.shell, Expr.text, Expr.inPlace, level_shell, l.text_shell, r.text_shell]
  | .assign op t v _ => by simp only [Expr.shell, Expr.text, t.text_shell, v.text_shell]
  | .conditional t c a _ => by
    simp only [Expr.shell, Expr.text, Expr.inPlace, level_shell, t.text_shell, c.text_shell,
      a.text_shell]
  | .call f args _ => by
    simp only [Expr.shell, Expr.text, Expr.inPlace, level_shell, f.text_shell,
      Expr.listText_shell args]
  | .member o p _ => by simp only [Expr.shell, Expr.text, Expr.inPlace, level_shell, o.text_shell]
  | .index o i _ => by
    simp only [Expr.shell, Expr.text, Expr.inPlace, level_shell, o.text_shell, i.text_shell]
  | .func f _ => f.header_shell

theorem Expr.listText_shell : ∀ es : List Expr, Expr.listText (Expr.shells es) = Expr.listText es
  | [] => rfl
  | e :: rest => by simp only [Expr.shells, Expr.listText, e.text_shell, Expr.tailText_shell rest]

theorem Expr.tailText_shell : ∀ es : List Expr, Expr.tailText (Expr.shells es) = Expr.tailText es
  | [] => rfl
  | e :: rest => by simp only [Expr.shells, Expr.tailText, e.text_shell, Expr.tailText_shell rest]

end

mutual

@[simp] theorem Expr.mentions_shell (name : String) : ∀ e : Expr,
    e.shell.mentions name = e.mentions name
  | .number .. | .str .. | .template .. | .bool .. | .null _ | .ident .. | .func .. => rfl
  | .array items _ => Expr.anyMentions_shell name items
  | .unary _ e _ | .update _ _ e _ => e.mentions_shell name
  | .binary l _ r _ => by
    simp only [Expr.shell, Expr.mentions, l.mentions_shell name, r.mentions_shell name]
  | .assign _ t v _ => by
    simp only [Expr.shell, Expr.mentions, t.mentions_shell name, v.mentions_shell name]
  | .conditional t c a _ => by
    simp only [Expr.shell, Expr.mentions, t.mentions_shell name, c.mentions_shell name,
      a.mentions_shell name]
  | .call f args _ => by
    simp only [Expr.shell, Expr.mentions, f.mentions_shell name, Expr.anyMentions_shell name args]
  | .member o _ _ => o.mentions_shell name
  | .index o i _ => by
    simp only [Expr.shell, Expr.mentions, o.mentions_shell name, i.mentions_shell name]

theorem Expr.anyMentions_shell (name : String) : ∀ es : List Expr,
    Expr.anyMentions name (Expr.shells es) = Expr.anyMentions name es
  | [] => rfl
  | e :: rest => by
    simp only [Expr.shells, Expr.anyMentions, e.mentions_shell name,
      Expr.anyMentions_shell name rest]

end

end SortTrace.Script
