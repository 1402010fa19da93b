import SortTrace.Proofs.Script.Walk
import SortTrace.Script.Grammar

/-!
Where the grammar goes and what it builds. Rules only move forward through their tokens, and the
names, numbers and texts of an expression are those of tokens that were passed, those of the
expressions in the bodies of its functions included.
-/

namespace SortTrace.Script

variable {ts : List Token} {c : Cursor}

def Cursor.Inside (ts : List Token) (c : Cursor) : Prop := c.rest <:+ ts

namespace Cursor.Inside

theorem advance (inside : c.Inside ts) : c.advance.Inside ts := by
  obtain ⟨_ | ⟨t, rest⟩, last⟩ := c
  · exact inside
  · unfold Cursor.advance
    dsimp only
    split
    · exact inside
    · exact (List.suffix_cons t rest).trans inside

theorem skip (inside : c.Inside ts) (m : Mark) : (c.skip m).Inside ts := by
  unfold Cursor.skip
  split
  · exact inside.advance
  · exact inside

theorem kind_mem (inside : c.Inside ts) {k : TokenKind} (kind : c.kind = k) (more : k ≠ .eof) :
    k ∈ ts.map Token.kind := by
  obtain ⟨_ | ⟨t, rest⟩, last⟩ := c
  · exact absurd kind.symm more
  · have member : t ∈ ts := List.IsSuffix.mem (List.mem_cons_self ..) inside
    exact List.mem_map.mpr ⟨t, member, kind⟩

end Cursor.Inside

def Func.title (f : Func) : List String := f.name?.toList ++ f.params

inductive Expr.BuiltFrom (ks : List TokenKind) : Expr → Prop
  | number {v : Numeral.Magnitude} (s : Span) : .number v ∈ ks → BuiltFrom ks (.number v s)
  | str {v : String} (s : Span) : .str v ∈ ks → BuiltFrom ks (.str v s)
  | template {v : String} (s : Span) : .template v ∈ ks → BuiltFrom ks (.template v s)
  | bool (v : Bool) (s : Span) : BuiltFrom ks (.bool v s)
  | null (s : Span) : BuiltFrom ks (.null s)
  | ident {name : String} (s : Span) : .ident name ∈ ks → BuiltFrom ks (.ident name s)
  | array {items : List Expr} (s : Span) :
      (∀ e ∈ items, BuiltFrom ks e) → BuiltFrom ks (.array items s)
  | unary {e : Expr} (op : UnaryOp) (s : Span) : BuiltFrom ks e → BuiltFrom ks (.unary op e s)
  | update {e : Expr} (op : UpdateOp) (before : Bool) (s : Span) :
      BuiltFrom ks e → BuiltFrom ks (.update op before e s)
  | binary {l r : Expr} (op : BinOp) (s : Span) :
      BuiltFrom ks l → BuiltFrom ks r → BuiltFrom ks (.binary l op r s)
  | assign {t v : Expr} (op : AssignOp) (s : Span) :
      t.isTarget = true → BuiltFrom ks t → BuiltFrom ks v → BuiltFrom ks (.assign op t v s)
  | conditional {t c a : Expr} (s : Span) :
      BuiltFrom ks t → BuiltFrom ks c → BuiltFrom ks a → BuiltFrom ks (.conditional t c a s)
  | call {f : Expr} {args : List Expr} (s : Span) :
      BuiltFrom ks f → (∀ e ∈ args, BuiltFrom ks e) → BuiltFrom ks (.call f args s)
  | member {o : Expr} {p : String} (s : Span) :
      BuiltFrom ks o → .ident p ∈ ks ∨ (∃ w : Keyword, w.text = p) →
      BuiltFrom ks (.member o p s)
  | index {o i : Expr} (s : Span) :
      BuiltFrom ks o → BuiltFrom ks i → BuiltFrom ks (.index o i s)
  | func {f : Func} (s : Span) : (∀ name ∈ f.title, .ident name ∈ ks) →
      (∀ o ∈ Outline.walkAll (fun _ => false) [f.outline], ∀ e, o.node.expr? = some e →
        BuiltFrom ks e) → BuiltFrom ks (.func f s)

theorem Expr.BuiltFrom.withSpan {ks : List TokenKind} {e : Expr} (built : e.BuiltFrom ks)
    (s : Span) : (e.withSpan s).BuiltFrom ks := by
  cases built <;> constructor <;> assumption

/-- An expression is built from tokens of the given kinds; other nodes are free. -/
def Node.BuiltFrom (ks : List TokenKind) (n : Node) : Prop :=
  ∀ e, n.expr? = some e → e.BuiltFrom ks

namespace Outline

def MadeFrom (ks : List TokenKind) (os : List Outline) : Prop :=
  ∀ o ∈ walkAll (fun _ => false) os, o.node.BuiltFrom ks

namespace MadeFrom

variable {ks : List TokenKind} {o : Outline} {below os rest : List Outline}

theorem nil : MadeFrom ks [] := @forall_walkAll_nil _ (Node.BuiltFrom ks)

theorem cons (first : MadeFrom ks [o]) (others : MadeFrom ks rest) : MadeFrom ks (o :: rest) := by
  refine @forall_walkAll_cons _ (Node.BuiltFrom ks) _ _ (fun x member => first x ?_) others
  rw [walkAll, walkAll, List.append_nil]
  exact member

theorem append (first : MadeFrom ks os) (second : MadeFrom ks rest) : MadeFrom ks (os ++ rest) := by
  unfold MadeFrom
  rw [walkAll_append, List.forall_mem_append]
  exact ⟨first, second⟩

theorem mk {n : Node} (here : n.BuiltFrom ks) (further : MadeFrom ks below) :
    MadeFrom ks [.mk n below] :=
  @forall_walkAll_cons _ (Node.BuiltFrom ks) _ _ (forall_walk here fun _ => further) nil

theorem other {n : Node} (other : n.expr? = none) (further : MadeFrom ks below) :
    MadeFrom ks [.mk n below] :=
  mk (fun e found => by rw [other] at found; cases found) further

theorem outlines {es : List Expr} (all : ∀ e ∈ es, MadeFrom ks [e.outline]) :
    MadeFrom ks (Expr.outlines es) := by
  induction es with
  | nil => exact nil
  | cons e es ih =>
    exact cons (all e (by simp)) (ih fun d member => all d (by simp [member]))

end MadeFrom

end Outline

open Outline (MadeFrom)

theorem Expr.BuiltFrom.outline {ks : List TokenKind} {e : Expr} (built : e.BuiltFrom ks) :
    MadeFrom ks [e.outline] := by
  have here {e : Expr} (built : e.BuiltFrom ks) : (Node.expr e).BuiltFrom ks := by
    rintro _ ⟨⟩
    exact built
  induction built with
  | number s member => exact .mk (here (.number s member)) .nil
  | str s member => exact .mk (here (.str s member)) .nil
  | template s member => exact .mk (here (.template s member)) .nil
  | bool v s => exact .mk (here (.bool v s)) .nil
  | null s => exact .mk (here (.null s)) .nil
  | ident s member => exact .mk (here (.ident s member)) .nil
  | array s items ih => exact .mk (here (.array s items)) (.outlines ih)
  | unary op s built ih => exact .mk (here (.unary op s built)) ih
  | update op before s built ih => exact .mk (here (.update op before s built)) ih
  | binary op s left right ihLeft ihRight =>
    exact .mk (here (.binary op s left right)) (.cons ihLeft ihRight)
  | assign op s target left right ihLeft ihRight =>
    exact .mk (here (.assign op s target left right)) (.cons ihLeft ihRight)
  | conditional s test first second ihTest ihFirst ihSecond =>
    exact .mk (here (.conditional s test first second)) (.cons ihTest (.cons ihFirst ihSecond))
  | call s callee args ihCallee ihArgs =>
    exact .mk (here (.call s callee args)) (.cons ihCallee (.outlines ihArgs))
  | member s object spelled ih => exact .mk (here (.member s object spelled)) ih
  | index s object index ihObject ihIndex =>
    exact .mk (here (.index s object index)) (.cons ihObject ihIndex)
  | func s titled made => exact .mk (here (.func s titled made)) made

namespace Grammar

/-- What comes out, if anything does, has the property, and the cursor is still inside. -/
def Yields {α : Type} (ts : List Token) (P : α → Prop) (x : Except SyntaxError (α × Cursor)) :
    Prop := ∀ a c, x = .ok (a, c) → P a ∧ c.Inside ts

namespace Yields

variable {α β : Type} {P : α → Prop} {Q : β → Prop}

theorem ok {a : α} (holds : P a) (inside : c.Inside ts) : Yields ts P (.ok (a, c)) := by
  rintro _ _ ⟨⟩
  exact ⟨holds, inside⟩

theorem fail (c : Cursor) (fault : ParseFault) : Yields ts P (c.fail fault) := by
  rintro _ _ ⟨⟩

theorem bind {x : Except SyntaxError (α × Cursor)}
    {k : α × Cursor → Except SyntaxError (β × Cursor)} (first : Yields ts P x)
    (further : ∀ a c, P a → c.Inside ts → Yields ts Q (k (a, c))) : Yields ts Q (x >>= k) := by
  rcases x with e | ⟨a, c⟩
  · rintro _ _ ⟨⟩
  · obtain ⟨holds, inside⟩ := first a c rfl
    exact further a c holds inside

theorem expect {k : Cursor → Except SyntaxError (β × Cursor)} (inside : c.Inside ts)
    (wanted : TokenKind) (further : ∀ c : Cursor, c.Inside ts → Yields ts Q (k c)) :
    Yields ts Q (c.expect wanted >>= k) := by
  unfold Cursor.expect
  split
  · exact further _ inside.advance
  · rintro _ _ ⟨⟩

theorem name (inside : c.Inside ts) :
    Yields ts (fun name => .ident name ∈ ts.map Token.kind) c.name := by
  unfold Cursor.name
  split
  · rename_i name kind
    exact .ok (inside.kind_mem kind (by simp)) inside.advance
  · exact .fail c _

theorem property (inside : c.Inside ts) :
    Yields ts (fun p => .ident p ∈ ts.map Token.kind ∨ ∃ w : Keyword, w.text = p) c.property := by
  unfold Cursor.property
  split
  · rename_i name kind
    exact .ok (.inl (inside.kind_mem kind (by simp))) inside.advance
  · rename_i w kind
    exact .ok (.inr ⟨w, rfl⟩) inside.advance
  · exact .fail c _

end Yields

def Makes {α : Type} (ts : List Token) (outlines : α → List Outline)
    (rule : Cursor → Except SyntaxError (α × Cursor)) : Prop :=
  ∀ c : Cursor, c.Inside ts →
    Yields ts (fun a => MadeFrom (ts.map Token.kind) (outlines a)) (rule c)

def Names (ts : List Token) (rule : Cursor → Except SyntaxError (List String × Cursor)) : Prop :=
  ∀ c : Cursor, c.Inside ts →
    Yields ts (fun names => ∀ name ∈ names, .ident name ∈ ts.map Token.kind) (rule c)

def Builds (ts : List Token) (rule : Cursor → Except SyntaxError (Expr × Cursor)) : Prop :=
  ∀ c : Cursor, c.Inside ts → Yields ts (Expr.BuiltFrom (ts.map Token.kind)) (rule c)

def MakesFunc (ts : List Token) (rule : Cursor → Except SyntaxError (Func × Cursor)) : Prop :=
  ∀ c : Cursor, c.Inside ts →
    Yields ts (fun f => (∀ name ∈ f.title, .ident name ∈ ts.map Token.kind) ∧
      MadeFrom (ts.map Token.kind) [f.outline]) (rule c)

theorem paramNames_names (fuel : Nat) : Names ts (paramNames fuel) := by
  induction fuel with
  | zero => exact fun c _ => .fail c _
  | succ fuel ih =>
    intro c inside
    unfold paramNames
    split
    · exact .ok (by simp) inside
    · refine (Yields.name inside).bind fun name c spelled inside => ?_
      dsimp only
      split
      · exact (ih _ inside.advance).bind fun names c others inside =>
          .ok (List.forall_mem_cons.mpr ⟨spelled, others⟩) inside
      · exact .ok (by simpa using spelled) inside

theorem params_names (fuel : Nat) : Names ts (params fuel) := by
  intro c inside
  refine Yields.expect inside _ fun c inside => ?_
  refine (paramNames_names fuel c inside).bind fun names c spelled inside => ?_
  exact Yields.expect inside _ fun c inside => .ok spelled inside

theorem arrowParams_names (fuel : Nat) : Names ts (Grammar.arrowParams (fuel + 1)) := by
  intro c inside
  rw [Grammar.arrowParams]
  split
  · exact params_names fuel c inside
  · exact (Yields.name inside).bind fun name c spelled inside =>
      .ok (by simpa using spelled) inside

structure Forward (ts : List Token) (fuel : Nat) : Prop where
  stmt : Makes ts (fun s => [s.outline]) (stmt fuel)
  stmts : Makes ts Stmt.outlines (stmts fuel)
  block : Makes ts Stmt.outlines (block fuel)
  blockStmts : Makes ts Stmt.outlines (blockStmts fuel)
  varDecl : Makes ts (fun d => [d.outline]) (varDecl fuel)
  varDeclFrom (kind : DeclKind) (start : Span) (name : String) :
    Makes ts (fun d => [d.outline]) (varDeclFrom fuel kind start name)
  declarators (name : String) : Makes ts Declarator.outlines (declarators fuel name)
  initializer : Makes ts Expr.optionOutlines (initializer fuel)
  func (named : Bool) : MakesFunc ts (func fuel named)
  header : Builds ts (header fuel)
  ifElse : Makes ts (fun s => [s.outline]) (ifElse fuel)
  forLoop : Makes ts (fun l => [l.outline]) (forLoop fuel)
  forHeader (start : Span) (init : ForInit) (made : MadeFrom (ts.map Token.kind) init.outlines) :
    Makes ts (fun l => [l.outline]) (forHeader fuel start init)
  exprUnless (m : Mark) : Makes ts Expr.optionOutlines (exprUnless fuel m)
  forEach (start : Span) (decl : Option DeclKind) (binding : String) (values : Bool) :
    Makes ts (fun l => [l.outline]) (forEach fuel start decl binding values)
  whileLoop : Makes ts (fun l => [l.outline]) (whileLoop fuel)
  doWhile : Makes ts (fun l => [l.outline]) (doWhile fuel)
  assignment : Builds ts (assignment fuel)
  conditional : Builds ts (conditional fuel)
  binary (least : Nat) : Builds ts (binary fuel least)
  binaryTail (least : Nat) (lhs : Expr) (built : lhs.BuiltFrom (ts.map Token.kind)) :
    Builds ts (binaryTail fuel least lhs)
  unary : Builds ts (unary fuel)
  postfixTail (e : Expr) (built : e.BuiltFrom (ts.map Token.kind)) :
    Builds ts (postfixTail fuel e)
  primary : Builds ts (primary fuel)
  items (close : Mark) (c : Cursor) (inside : c.Inside ts) :
    Yields ts (fun es => ∀ e ∈ es, Expr.BuiltFrom (ts.map Token.kind) e) (items fuel close c)
  arrow : Builds ts (arrow fuel)
  arrowParams : Names ts (arrowParams fuel)

theorem forward_zero : Forward ts 0 := by
  constructor <;> intros
  all_goals first
    | exact Yields.fail _ _
    | exact fun c _ => Yields.fail c _

namespace Forward

variable {fuel : Nat}

theorem stmt_succ (h : Forward ts fuel) :
    Makes ts (fun s => [s.outline]) (Grammar.stmt (fuel + 1)) := by
  intro c inside
  unfold Grammar.stmt
  dsimp only
  split
  all_goals try
    exact (h.varDecl c inside).bind fun decl c made inside => .ok (.other rfl made) (inside.skip _)
  · exact (h.func true c inside).bind fun f c made inside => .ok (.other rfl made.2) inside
  · exact h.ifElse c inside
  · exact (h.forLoop c inside).bind fun l c made inside => .ok (.other rfl made) inside
  · exact (h.whileLoop c inside).bind fun l c made inside => .ok (.other rfl made) inside
  · exact (h.doWhile c inside).bind fun l c made inside => .ok (.other rfl made) inside
  · exact (h.block c inside).bind fun body c made inside => .ok (.other rfl made) inside
  · split
    · exact .ok (.other rfl .nil) (inside.advance.skip _)
    · exact (h.assignment _ inside.advance).bind fun e c built inside =>
        .ok (.other rfl built.outline) (inside.skip _)
  · exact .ok (.other rfl .nil) (inside.advance.skip _)
  · exact .ok (.other rfl .nil) (inside.advance.skip _)
  · exact .ok (.other rfl .nil) inside.advance
  · exact (h.assignment c inside).bind fun e c built inside =>
      .ok (.other rfl built.outline) (inside.skip _)

theorem stmts_succ (h : Forward ts fuel) : Makes ts Stmt.outlines (Grammar.stmts (fuel + 1)) := by
  intro c inside
  unfold Grammar.stmts
  split
  · exact .ok .nil inside
  · refine (h.stmt c inside).bind fun first c made inside => ?_
    exact (h.stmts c inside).bind fun rest c others inside => .ok (.cons made others) inside

theorem block_succ (h : Forward ts fuel) : Makes ts Stmt.outlines (Grammar.block (fuel + 1)) := by
  intro c inside
  refine Yields.expect inside _ fun c inside => ?_
  exact (h.blockStmts c inside).bind fun body c made inside => .ok made inside.advance

theorem blockStmts_succ (h : Forward ts fuel) :
    Makes ts Stmt.outlines (Grammar.blockStmts (fuel + 1)) := by
  intro c inside
  unfold Grammar.blockStmts
  split
  · exact .ok .nil inside
  split
  · exact .fail c _
  · refine (h.stmt c inside).bind fun first c made inside => ?_
    exact (h.blockStmts c inside).bind fun rest c others inside => .ok (.cons made others) inside

theorem varDecl_succ (h : Forward ts fuel) :
    Makes ts (fun d => [d.outline]) (Grammar.varDecl (fuel + 1)) := by
  intro c inside
  unfold Grammar.varDecl
  split
  · exact .fail c _
  · refine (Yields.name inside.advance).bind fun name c _ inside => ?_
    exact h.varDeclFrom _ _ name c inside

theorem varDeclFrom_succ (h : Forward ts fuel) (kind : DeclKind) (start : Span) (name : String) :
    Makes ts (fun d => [d.outline]) (Grammar.varDeclFrom (fuel + 1) kind start name) := by
  intro c inside
  exact (h.declarators name c inside).bind fun ds c made inside => .ok (.other rfl made) inside

theorem declarators_succ (h : Forward ts fuel) (name : String) :
    Makes ts Declarator.outlines (Grammar.declarators (fuel + 1) name) := by
  intro c inside
  refine (h.initializer c inside).bind fun init c made inside => ?_
  have first (s : Span) : MadeFrom (ts.map Token.kind) [(Declarator.mk name init s).outline] := by
    cases init <;> exact .other rfl made
  dsimp only
  split
  · refine (Yields.name inside.advance).bind fun next c _ inside => ?_
    exact (h.declarators next c inside).bind fun rest c others inside =>
      .ok (.cons (first _) others) inside
  · exact .ok (first _) inside

theorem initializer_succ (h : Forward ts fuel) :
    Makes ts Expr.optionOutlines (Grammar.initializer (fuel + 1)) := by
  intro c inside
  unfold Grammar.initializer
  split
  · exact (h.assignment _ inside.advance).bind fun e c built inside => .ok built.outline inside
  · exact .ok .nil inside

theorem func_succ (h : Forward ts fuel) (named : Bool) :
    MakesFunc ts (Grammar.func (fuel + 1) named) := by
  intro c inside
  refine Yields.expect inside _ fun c inside => ?_
  split
  · rename_i name kind
    have spelled := inside.kind_mem kind (by simp)
    refine (params_names fuel _ inside.advance).bind fun ps c names inside => ?_
    exact (h.block c inside).bind fun body c made inside =>
      .ok ⟨List.forall_mem_cons.mpr ⟨spelled, names⟩, .other rfl made⟩ inside
  · split
    · exact .fail c _
    · refine (params_names fuel c inside).bind fun ps c names inside => ?_
      exact (h.block c inside).bind fun body c made inside => .ok ⟨names, .other rfl made⟩ inside

theorem header_succ (h : Forward ts fuel) : Builds ts (Grammar.header (fuel + 1)) := by
  intro c inside
  refine Yields.expect inside _ fun c inside => ?_
  refine (h.assignment c inside).bind fun e c built inside => ?_
  exact Yields.expect inside _ fun c inside => .ok built inside

theorem ifElse_succ (h : Forward ts fuel) :
    Makes ts (fun s => [s.outline]) (Grammar.ifElse (fuel + 1)) := by
  intro c inside
  refine Yields.expect inside _ fun c inside => ?_
  refine (h.header c inside).bind fun test c built inside => ?_
  refine (h.stmt c inside).bind fun consequent c first inside => ?_
  dsimp only
  split
  · exact (h.stmt _ inside.advance).bind fun alternate c second inside =>
      .ok (.other rfl (.cons built.outline (.cons first second))) inside
  · exact .ok (.other rfl (.cons built.outline first)) inside

theorem forLoop_succ (h : Forward ts fuel) :
    Makes ts (fun l => [l.outline]) (Grammar.forLoop (fuel + 1)) := by
  intro c inside
  refine Yields.expect inside _ fun c inside => ?_
  refine Yields.expect inside _ fun c inside => ?_
  have plain (start : Span) : Yields ts
      (fun l : Loop => MadeFrom (ts.map Token.kind) [l.outline])
      (Grammar.assignment fuel c >>= fun x => Grammar.forHeader fuel start (.expr x.1) x.2) :=
    (h.assignment c inside).bind fun e c built inside => h.forHeader _ (.expr e) built.outline c inside
  split
  all_goals try
    split
    · exact .fail c _
    · refine (Yields.name inside.advance).bind fun name c _ inside => ?_
      dsimp only
      split
      · exact h.forEach _ _ _ _ _ inside.advance
      · exact (h.varDeclFrom _ _ name c inside).bind fun decl c made inside =>
          h.forHeader _ (.varDecl decl) made c inside
  · exact h.forHeader _ .none .nil c inside
  · split
    · exact h.forEach _ _ _ _ _ inside.advance.advance
    · exact plain _
  · exact plain _

theorem forHeader_succ (h : Forward ts fuel) (start : Span) (init : ForInit)
    (made : MadeFrom (ts.map Token.kind) init.outlines) :
    Makes ts (fun l => [l.outline]) (Grammar.forHeader (fuel + 1) start init) := by
  intro c inside
  refine Yields.expect inside _ fun c inside => ?_
  refine (h.exprUnless _ c inside).bind fun test c madeTest inside => ?_
  refine Yields.expect inside _ fun c inside => ?_
  refine (h.exprUnless _ c inside).bind fun update c madeUpdate inside => ?_
  refine Yields.expect inside _ fun c inside => ?_
  exact (h.stmt c inside).bind fun body c madeBody inside =>
    .ok (.other rfl (made.append (madeTest.append (madeUpdate.append madeBody)))) inside

theorem exprUnless_succ (h : Forward ts fuel) (m : Mark) :
    Makes ts Expr.optionOutlines (Grammar.exprUnless (fuel + 1) m) := by
  intro c inside
  unfold Grammar.exprUnless
  split
  · exact .ok .nil inside
  · exact (h.assignment c inside).bind fun e c built inside => .ok built.outline inside

theorem forEach_succ (h : Forward ts fuel) (start : Span) (decl : Option DeclKind)
    (binding : String) (values : Bool) :
    Makes ts (fun l => [l.outline]) (Grammar.forEach (fuel + 1) start decl binding values) := by
  intro c inside
  refine (h.assignment c inside).bind fun e c built inside => ?_
  refine Yields.expect inside _ fun c inside => ?_
  exact (h.stmt c inside).bind fun body c made inside =>
    .ok (.other rfl (.cons built.outline made)) inside

theorem whileLoop_succ (h : Forward ts fuel) :
    Makes ts (fun l => [l.outline]) (Grammar.whileLoop (fuel + 1)) := by
  intro c inside
  refine Yields.expect inside _ fun c inside => ?_
  refine (h.header c inside).bind fun test c built inside => ?_
  exact (h.stmt c inside).bind fun body c made inside =>
    .ok (.other rfl (.cons built.outline made)) inside

theorem doWhile_succ (h : Forward ts fuel) :
    Makes ts (fun l => [l.outline]) (Grammar.doWhile (fuel + 1)) := by
  intro c inside
  refine Yields.expect inside _ fun c inside => ?_
  refine (h.stmt c inside).bind fun body c made inside => ?_
  refine Yields.expect inside _ fun c inside => ?_
  exact (h.header c inside).bind fun test c built inside =>
    .ok (.other rfl (.cons made built.outline)) (inside.skip _)

theorem assignment_succ (h : Forward ts fuel) : Builds ts (Grammar.assignment (fuel + 1)) := by
  intro c inside
  unfold Grammar.assignment
  split
  · exact h.arrow c inside
  · refine (h.conditional c inside).bind fun target c built inside => ?_
    dsimp only
    split
    · exact .ok built inside
    · split
      · rename_i op next targeted
        exact (h.assignment _ inside.advance).bind fun value c builtValue inside =>
          .ok (.assign op _ targeted built builtValue) inside
      · exact .fail c _

theorem conditional_succ (h : Forward ts fuel) : Builds ts (Grammar.conditional (fuel + 1)) := by
  intro c inside
  refine (h.binary 1 c inside).bind fun test c builtTest inside => ?_
  dsimp only
  split
  · refine (h.assignment _ inside.advance).bind fun consequent c builtConsequent inside => ?_
    refine Yields.expect inside _ fun c inside => ?_
    exact (h.assignment c inside).bind fun alternate c builtAlternate inside =>
      .ok (.conditional _ builtTest builtConsequent builtAlternate) inside
  · exact .ok builtTest inside

theorem binary_succ (h : Forward ts fuel) (least : Nat) :
    Builds ts (Grammar.binary (fuel + 1) least) := by
  intro c inside
  exact (h.unary c inside).bind fun lhs c built inside => h.binaryTail least lhs built c inside

theorem binaryTail_succ (h : Forward ts fuel) (least : Nat) (lhs : Expr)
    (built : lhs.BuiltFrom (ts.map Token.kind)) :
    Builds ts (Grammar.binaryTail (fuel + 1) least lhs) := by
  intro c inside
  unfold Grammar.binaryTail
  split
  · exact .ok built inside
  · rename_i op next
    split
    · exact .ok built inside
    · exact (h.binary _ _ inside.advance).bind fun rhs c builtRhs inside =>
        h.binaryTail least _ (.binary op _ built builtRhs) c inside

theorem unary_succ (h : Forward ts fuel) : Builds ts (Grammar.unary (fuel + 1)) := by
  intro c inside
  unfold Grammar.unary
  dsimp only
  split
  · exact (h.unary _ inside.advance).bind fun operand c built inside =>
      .ok (.unary _ _ built) inside
  · exact (h.unary _ inside.advance).bind fun target c built inside =>
      .ok (.update _ true _ built) inside
  · exact (h.primary c inside).bind fun e c built inside => h.postfixTail e built c inside

theorem postfixTail_succ (h : Forward ts fuel) (e : Expr)
    (built : e.BuiltFrom (ts.map Token.kind)) :
    Builds ts (Grammar.postfixTail (fuel + 1) e) := by
  intro c inside
  unfold Grammar.postfixTail
  split
  · exact (h.items _ _ inside.advance).bind fun args c builtArgs inside =>
      h.postfixTail _ (.call _ built builtArgs) c inside
  · exact (Yields.property inside.advance).bind fun p c spelled inside =>
      h.postfixTail _ (.member _ built spelled) c inside
  · refine (h.assignment _ inside.advance).bind fun i c builtIndex inside => ?_
    exact Yields.expect inside _ fun c inside =>
      h.postfixTail _ (.index _ built builtIndex) c inside
  · exact h.postfixTail _ (.update _ false _ built) _ inside.advance
  · exact h.postfixTail _ (.update _ false _ built) _ inside.advance
  · exact .ok built inside

theorem primary_succ (h : Forward ts fuel) : Builds ts (Grammar.primary (fuel + 1)) := by
  intro c inside
  unfold Grammar.primary
  dsimp only
  split
  · rename_i v kind
    exact .ok (.number _ (inside.kind_mem kind (by simp))) inside.advance
  · rename_i v kind
    exact .ok (.str _ (inside.kind_mem kind (by simp))) inside.advance
  · rename_i v kind
    exact .ok (.template _ (inside.kind_mem kind (by simp))) inside.advance
  · exact .ok (.bool true _) inside.advance
  · exact .ok (.bool false _) inside.advance
  · exact .ok (.null _) inside.advance
  · rename_i name kind
    exact .ok (.ident _ (inside.kind_mem kind (by simp))) inside.advance
  · exact (h.items _ _ inside.advance).bind fun es c built inside => .ok (.array _ built) inside
  · refine (h.assignment _ inside.advance).bind fun e c built inside => ?_
    exact Yields.expect inside _ fun c inside => .ok (built.withSpan _) inside
  · exact (h.func false c inside).bind fun f c made inside => .ok (.func _ made.1 made.2) inside
  · exact .fail c _

theorem items_succ (h : Forward ts fuel) (close : Mark) (c : Cursor) (inside : c.Inside ts) :
    Yields ts (fun es => ∀ e ∈ es, Expr.BuiltFrom (ts.map Token.kind) e)
      (Grammar.items (fuel + 1) close c) := by
  unfold Grammar.items
  split
  · exact .ok (by simp) inside.advance
  · refine (h.assignment c inside).bind fun first c builtFirst inside => ?_
    dsimp only
    split
    · exact (h.items close _ inside.advance).bind fun rest c builtRest inside =>
        .ok (List.forall_mem_cons.mpr ⟨builtFirst, builtRest⟩) inside
    · exact Yields.expect inside _ fun c inside => .ok (by simpa using builtFirst) inside

theorem arrow_succ (h : Forward ts fuel) : Builds ts (Grammar.arrow (fuel + 1)) := by
  intro c inside
  refine (h.arrowParams c inside).bind fun ps c names inside => ?_
  refine Yields.expect inside _ fun c inside => ?_
  split
  · exact (h.block c inside).bind fun body c made inside =>
      .ok (.func _ names (MadeFrom.other rfl made)) inside
  · exact (h.assignment c inside).bind fun value c built inside =>
      .ok (.func _ names (MadeFrom.other rfl built.outline)) inside

end Forward

theorem forward (ts : List Token) (fuel : Nat) : Forward ts fuel := by
  induction fuel with
  | zero => exact forward_zero
  | succ fuel h =>
    exact
      { stmt := h.stmt_succ
        stmts := h.stmts_succ
        block := h.block_succ
        blockStmts := h.blockStmts_succ
        varDecl := h.varDecl_succ
        varDeclFrom := h.varDeclFrom_succ
        declarators := h.declarators_succ
        initializer := h.initializer_succ
        func := h.func_succ
        header := h.header_succ
        ifElse := h.ifElse_succ
        forLoop := h.forLoop_succ
        forHeader := h.forHeader_succ
        exprUnless := h.exprUnless_succ
        forEach := h.forEach_succ
        whileLoop := h.whileLoop_succ
        doWhile := h.doWhile_succ
        assignment := h.assignment_succ
        conditional := h.conditional_succ
        binary := h.binary_succ
        binaryTail := h.binaryTail_succ
        unary := h.unary_succ
        postfixTail := h.postfixTail_succ
        primary := h.primary_succ
        items := h.items_succ
        arrow := h.arrow_succ
        arrowParams := arrowParams_names fuel }

end Grammar

end SortTrace.Script
