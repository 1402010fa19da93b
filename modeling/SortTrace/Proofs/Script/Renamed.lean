import Mathlib.Logic.Equiv.Basic
import SortTrace.Proofs.Script.Forward
import SortTrace.Proofs.Script.Spelling
import SortTrace.Script.Printer

/-!
Renamed trees: another name for every variable, function and parameter. Properties are no names, and
spans stay as they are.
-/

namespace SortTrace.Script

deriving instance DecidableEq for Identifier

structure Renaming where
  rename : Identifier → Identifier
  injective : Function.Injective rename

/-- The other name; a text that is no name stays as it is. -/
def Renaming.apply (ρ : Renaming) (name : String) : String :=
  if valid : isIdentifier name = true then (ρ.rename ⟨name, valid⟩).name else name

namespace Renaming

variable (ρ : Renaming) {name : String}

theorem apply_other (other : isIdentifier name = false) : ρ.apply name = name :=
  dif_neg (by simp [other])

theorem isIdentifier_apply (name : String) : isIdentifier (ρ.apply name) = isIdentifier name := by
  unfold apply
  split
  · rename_i valid
    rw [valid, (ρ.rename ⟨name, valid⟩).valid]
  · rfl

theorem apply_injective : Function.Injective ρ.apply := by
  intro a b same
  have kind : isIdentifier a = isIdentifier b := by
    rw [← ρ.isIdentifier_apply a, same, ρ.isIdentifier_apply b]
  by_cases valid : isIdentifier a = true
  · have valid' := kind.symm.trans valid
    rw [apply, apply, dif_pos valid, dif_pos valid'] at same
    have names : (⟨a, valid⟩ : Identifier) = ⟨b, valid'⟩ := by
      refine ρ.injective ?_
      cases first : ρ.rename ⟨a, valid⟩
      cases second : ρ.rename ⟨b, valid'⟩
      simp only [first, second] at same
      simp only [same]
    exact congrArg Identifier.name names
  · rw [Bool.not_eq_true] at valid
    rwa [ρ.apply_other valid, ρ.apply_other (kind.symm.trans valid)] at same

def exchange (a b : Identifier) : Renaming := ⟨Equiv.swap a b, (Equiv.swap a b).injective⟩

end Renaming

section

variable (g : String → String)

mutual

def Expr.renamed : Expr → Expr
  | .number v s => .number v s
  | .str v s => .str v s
  | .template v s => .template v s
  | .bool v s => .bool v s
  | .null s => .null s
  | .ident name s => .ident (g name) s
  | .array items s => .array (Expr.renameds items) s
  | .unary op e s => .unary op e.renamed s
  | .update op before e s => .update op before e.renamed s
  | .binary l op r s => .binary l.renamed op r.renamed s
  | .assign op t v s => .assign op t.renamed v.renamed s
  | .conditional t c a s => .conditional t.renamed c.renamed a.renamed s
  | .call f args s => .call f.renamed (Expr.renameds args) s
  | .member o p s => .member o.renamed p s
  | .index o i s => .index o.renamed i.renamed s
  | .func f s => .func f.renamed s

def Expr.renameds : List Expr → List Expr
  | [] => []
  | e :: rest => e.renamed :: Expr.renameds rest

def Expr.renamedOption : Option Expr → Option Expr
  | none => none
  | some e => some e.renamed

def Func.renamed : Func → Func
  | .block name ps body s => .block (name.map g) (ps.map g) (Stmt.renameds body) s
  | .arrowBlock ps body s => .arrowBlock (ps.map g) (Stmt.renameds body) s
  | .arrowValue ps value s => .arrowValue (ps.map g) value.renamed s

def Stmt.renamed : Stmt → Stmt
  | .varDecl d s => .varDecl d.renamed s
  | .func f s => .func f.renamed s
  | .ifElse t c a s => .ifElse t.renamed c.renamed (Stmt.renamedOption a) s
  | .loop l s => .loop l.renamed s
  | .block body s => .block (Stmt.renameds body) s
  | .ret value s => .ret (Expr.renamedOption value) s
  | .brk s => .brk s
  | .cont s => .cont s
  | .empty s => .empty s
  | .expr e s => .expr e.renamed s

def Stmt.renameds : List Stmt → List Stmt
  | [] => []
  | s :: rest => s.renamed :: Stmt.renameds rest

def Stmt.renamedOption : Option Stmt → Option Stmt
  | none => none
  | some s => some s.renamed

def VarDecl.renamed : VarDecl → VarDecl
  | .mk kind ds s => .mk kind (Declarator.renameds ds) s

def Declarator.renamed : Declarator → Declarator
  | .mk name init s => .mk (g name) (Expr.renamedOption init) s

def Declarator.renameds : List Declarator → List Declarator
  | [] => []
  | d :: rest => d.renamed :: Declarator.renameds rest

def Loop.renamed : Loop → Loop
  | .forLoop init test update body s =>
    .forLoop init.renamed (Expr.renamedOption test) (Expr.renamedOption update) body.renamed s
  | .forEach decl binding iterable values body s =>
    .forEach decl (g binding) iterable.renamed values body.renamed s
  | .whileLoop test body s => .whileLoop test.renamed body.renamed s
  | .doWhile body test s => .doWhile body.renamed test.renamed s

def ForInit.renamed : ForInit → ForInit
  | .none => .none
  | .varDecl d => .varDecl d.renamed
  | .expr e => .expr e.renamed

end

def Program.renamed (p : Program) : Program := { p with body := Stmt.renameds g p.body }

@[simp] theorem Expr.renameds_eq_map (es : List Expr) :
    Expr.renameds g es = es.map (Expr.renamed g) := by
  induction es with
  | nil => rfl
  | cons e rest ih => simp [Expr.renameds, ih]

@[simp] theorem Stmt.renameds_eq_map (ss : List Stmt) :
    Stmt.renameds g ss = ss.map (Stmt.renamed g) := by
  induction ss with
  | nil => rfl
  | cons s rest ih => simp [Stmt.renameds, ih]

@[simp] theorem Expr.renamedOption_eq_map (e : Option Expr) :
    Expr.renamedOption g e = e.map (Expr.renamed g) := by
  cases e <;> rfl

@[simp] theorem Expr.level_renamed (e : Expr) : (e.renamed g).level = e.level := by
  cases e <;> rfl

@[simp] theorem Expr.name?_renamed (e : Expr) : (e.renamed g).name? = e.name?.map g := by
  cases e <;> rfl

@[simp] theorem Expr.number?_renamed (e : Expr) : (e.renamed g).number? = e.number? := by
  cases e with
  | unary op operand s => cases op <;> cases operand <;> rfl
  | _ => rfl

@[simp] theorem Expr.indexed?_renamed (e : Expr) :
    (e.renamed g).indexed? = e.indexed?.map (Prod.map (Expr.renamed g) (Expr.renamed g)) := by
  cases e <;> rfl

@[simp] theorem Expr.items?_renamed (e : Expr) :
    (e.renamed g).items? = e.items?.map (·.map (Expr.renamed g)) := by
  cases e <;> simp [Expr.renamed, Expr.items?]

@[simp] theorem Func.name?_renamed (f : Func) : (f.renamed g).name? = f.name?.map g := by
  cases f <;> rfl

@[simp] theorem Func.params_renamed (f : Func) : (f.renamed g).params = f.params.map g := by
  cases f <;> rfl

@[simp] theorem Func.title_renamed (f : Func) : (f.renamed g).title = f.title.map g := by
  simp only [Func.title, f.name?_renamed, f.params_renamed, List.map_append]
  cases f.name? <;> rfl

@[simp] theorem Func.isArrow_renamed (f : Func) : (f.renamed g).isArrow = f.isArrow := by
  cases f <;> rfl

@[simp] theorem Stmt.statements_renamed (s : Stmt) :
    (s.renamed g).statements = s.statements.map (Stmt.renamed g) := by
  cases s <;> simp [Stmt.renamed, Stmt.statements]

@[simp] theorem Declarator.name_renamed (d : Declarator) : (d.renamed g).name = g d.name := by
  cases d
  rfl

@[simp] theorem Declarator.init_renamed (d : Declarator) :
    (d.renamed g).init = d.init.map (Expr.renamed g) := by
  cases d
  simp [Declarator.renamed, Declarator.init]

@[simp] theorem Loop.body_renamed (l : Loop) : (l.renamed g).body = l.body.renamed g := by
  cases l <;> rfl

@[simp] theorem Loop.test?_renamed (l : Loop) :
    (l.renamed g).test? = l.test?.map (Expr.renamed g) := by
  cases l <;> simp [Loop.renamed, Loop.test?]

end

section

variable {g back : String → String}

theorem map_renamed_back (undoes : ∀ name, back (g name) = name) (names : List String) :
    (names.map g).map back = names := by
  simp [Function.comp_def, undoes]

mutual

theorem Expr.renamed_back (undoes : ∀ name, back (g name) = name) :
    ∀ e : Expr, (e.renamed g).renamed back = e
  | .number .. | .str .. | .template .. | .bool .. | .null _ => rfl
  | .ident name _ => by simp only [Expr.renamed, undoes]
  | .array items _ => by simp only [Expr.renamed, Expr.renameds_back undoes items]
  | .unary _ e _ | .update _ _ e _ | .member e _ _ => by
    simp only [Expr.renamed, e.renamed_back undoes]
  | .binary l _ r _ | .assign _ l r _ | .index l r _ => by
    simp only [Expr.renamed, l.renamed_back undoes, r.renamed_back undoes]
  | .conditional t c a _ => by
    simp only [Expr.renamed, t.renamed_back undoes, c.renamed_back undoes, a.renamed_back undoes]
  | .call f args _ => by
    simp only [Expr.renamed, f.renamed_back undoes, Expr.renameds_back undoes args]
  | .func f _ => by simp only [Expr.renamed, f.renamed_back undoes]

theorem Expr.renameds_back (undoes : ∀ name, back (g name) = name) :
    ∀ es : List Expr, Expr.renameds back (Expr.renameds g es) = es
  | [] => rfl
  | e :: rest => by
    simp only [Expr.renameds, e.renamed_back undoes, Expr.renameds_back undoes rest]

theorem Expr.renamedOption_back (undoes : ∀ name, back (g name) = name) :
    ∀ e : Option Expr, Expr.renamedOption back (Expr.renamedOption g e) = e
  | none => rfl
  | some e => by simp only [Expr.renamedOption, e.renamed_back undoes]

theorem Func.renamed_back (undoes : ∀ name, back (g name) = name) :
    ∀ f : Func, (f.renamed g).renamed back = f
  | .block none ps body _ => by
    simp only [Func.renamed, Option.map_none, map_renamed_back undoes,
      Stmt.renameds_back undoes body]
  | .block (some name) ps body _ => by
    simp only [Func.renamed, Option.map_some, undoes, map_renamed_back undoes,
      Stmt.renameds_back undoes body]
  | .arrowBlock ps body _ => by
    simp only [Func.renamed, map_renamed_back undoes, Stmt.renameds_back undoes body]
  | .arrowValue ps value _ => by
    simp only [Func.renamed, map_renamed_back undoes, value.renamed_back undoes]

theorem Stmt.renamed_back (undoes : ∀ name, back (g name) = name) :
    ∀ s : Stmt, (s.renamed g).renamed back = s
  | .varDecl d _ => by simp only [Stmt.renamed, d.renamed_back undoes]
  | .func f _ => by simp only [Stmt.renamed, f.renamed_back undoes]
  | .ifElse t c a _ => by
    simp only [Stmt.renamed, t.renamed_back undoes, c.renamed_back undoes,
      Stmt.renamedOption_back undoes a]
  | .loop l _ => by simp only [Stmt.renamed, l.renamed_back undoes]
  | .block body _ => by simp only [Stmt.renamed, Stmt.renameds_back undoes body]
  | .ret value _ => by simp only [Stmt.renamed, Expr.renamedOption_back undoes value]
  | .brk _ | .cont _ | .empty _ => rfl
  | .expr e _ => by simp only [Stmt.renamed, e.renamed_back undoes]

theorem Stmt.renameds_back (undoes : ∀ name, back (g name) = name) :
    ∀ ss : List Stmt, Stmt.renameds back (Stmt.renameds g ss) = ss
  | [] => rfl
  | s :: rest => by
    simp only [Stmt.renameds, s.renamed_back undoes, Stmt.renameds_back undoes rest]

theorem Stmt.renamedOption_back (undoes : ∀ name, back (g name) = name) :
    ∀ s : Option Stmt, Stmt.renamedOption back (Stmt.renamedOption g s) = s
  | none => rfl
  | some s => by simp only [Stmt.renamedOption, s.renamed_back undoes]

theorem VarDecl.renamed_back (undoes : ∀ name, back (g name) = name) :
    ∀ d : VarDecl, (d.renamed g).renamed back = d
  | .mk _ ds _ => by simp only [VarDecl.renamed, Declarator.renameds_back undoes ds]

theorem Declarator.renamed_back (undoes : ∀ name, back (g name) = name) :
    ∀ d : Declarator, (d.renamed g).renamed back = d
  | .mk name init _ => by
    simp only [Declarator.renamed, undoes, Expr.renamedOption_back undoes init]

theorem Declarator.renameds_back (undoes : ∀ name, back (g name) = name) :
    ∀ ds : List Declarator, Declarator.renameds back (Declarator.renameds g ds) = ds
  | [] => rfl
  | d :: rest => by
    simp only [Declarator.renameds, d.renamed_back undoes, Declarator.renameds_back undoes rest]

theorem Loop.renamed_back (undoes : ∀ name, back (g name) = name) :
    ∀ l : Loop, (l.renamed g).renamed back = l
  | .forLoop init test update body _ => by
    simp only [Loop.renamed, init.renamed_back undoes, Expr.renamedOption_back undoes test,
      Expr.renamedOption_back undoes update, body.renamed_back undoes]
  | .forEach _ binding e _ body _ => by
    simp only [Loop.renamed, undoes, e.renamed_back undoes, body.renamed_back undoes]
  | .whileLoop e body _ | .doWhile body e _ => by
    simp only [Loop.renamed, e.renamed_back undoes, body.renamed_back undoes]

theorem ForInit.renamed_back (undoes : ∀ name, back (g name) = name) :
    ∀ init : ForInit, (init.renamed g).renamed back = init
  | .none => rfl
  | .varDecl d => by simp only [ForInit.renamed, d.renamed_back undoes]
  | .expr e => by simp only [ForInit.renamed, e.renamed_back undoes]

end

end

section

variable {g : String → String}

mutual

theorem Expr.mentions_renamed (injective : Function.Injective g) (name : String) :
    ∀ e : Expr, (e.renamed g).mentions (g name) = e.mentions name
  | .number .. | .str .. | .template .. | .bool .. | .null _ | .func .. => rfl
  | .ident n _ => by
    rw [Expr.renamed, Expr.mentions, Expr.mentions, Bool.eq_iff_iff, beq_iff_eq, beq_iff_eq,
      injective.eq_iff]
  | .array items _ => Expr.anyMentions_renamed injective name items
  | .unary _ e _ | .update _ _ e _ => e.mentions_renamed injective name
  | .binary l _ r _ => by
    simp only [Expr.renamed, Expr.mentions, l.mentions_renamed injective name,
      r.mentions_renamed injective name]
  | .assign _ t v _ => by
    simp only [Expr.renamed, Expr.mentions, t.mentions_renamed injective name,
      v.mentions_renamed injective name]
  | .conditional t c a _ => by
    simp only [Expr.renamed, Expr.mentions, t.mentions_renamed injective name,
      c.mentions_renamed injective name, a.mentions_renamed injective name]
  | .call f args _ => by
    simp only [Expr.renamed, Expr.mentions, f.mentions_renamed injective name,
      Expr.anyMentions_renamed injective name args]
  | .member o _ _ => o.mentions_renamed injective name
  | .index o i _ => by
    simp only [Expr.renamed, Expr.mentions, o.mentions_renamed injective name,
      i.mentions_renamed injective name]

theorem Expr.anyMentions_renamed (injective : Function.Injective g) (name : String) :
    ∀ es : List Expr, Expr.anyMentions (g name) (Expr.renameds g es) = Expr.anyMentions name es
  | [] => rfl
  | e :: rest => by
    simp only [Expr.renameds, Expr.anyMentions, e.mentions_renamed injective name,
      Expr.anyMentions_renamed injective name rest]

end

end

end SortTrace.Script
