import SortTrace.Proofs.Script.Bare

/-!
The grammar does not look at spans: from tokens without spans it reads the bare tree, or reports the
same fault. Every rule reads a bare cursor as it reads the cursor itself.
-/

namespace SortTrace.Script

def Token.bare (t : Token) : Token := ⟨t.kind, {}⟩

def SyntaxError.bare : SyntaxError → SyntaxError
  | scan fault _ => scan fault {}
  | parse fault _ => parse fault {}

@[simp] theorem Span.cover_empty : Span.cover {} {} = {} := rfl

namespace Cursor

def bare (c : Cursor) : Cursor := ⟨c.rest.map Token.bare, {}⟩

@[simp] theorem kind_bare (c : Cursor) : c.bare.kind = c.kind := by
  obtain ⟨_ | ⟨t, rest⟩, last⟩ := c <;> rfl

@[simp] theorem span_bare (c : Cursor) : c.bare.span = {} := by
  obtain ⟨_ | ⟨t, rest⟩, last⟩ := c <;> rfl

@[simp] theorem last_bare (c : Cursor) : c.bare.last = {} := rfl

@[simp] theorem advance_bare (c : Cursor) : c.bare.advance = c.advance.bare := by
  obtain ⟨_ | ⟨t, rest⟩, last⟩ := c
  · rfl
  · by_cases atEnd : t.kind = .eof <;> simp [bare, advance, Token.bare, atEnd]

@[simp] theorem sees_bare (c : Cursor) (m : Mark) : c.bare.sees m = c.sees m := by
  simp [sees]

@[simp] theorem skip_bare (c : Cursor) (m : Mark) : c.bare.skip m = (c.skip m).bare := by
  by_cases seen : c.sees m <;> simp [skip, seen]

@[simp] theorem assignOp?_bare (c : Cursor) : c.bare.assignOp? = c.assignOp? := by
  simp [assignOp?]

@[simp] theorem binOp?_bare (c : Cursor) : c.bare.binOp? = c.binOp? := by
  simp [binOp?]

@[simp] theorem eachWord?_bare (c : Cursor) : c.bare.eachWord? = c.eachWord? := by
  simp [eachWord?]

@[simp] theorem atStmtEnd_bare (c : Cursor) : c.bare.atStmtEnd = c.atStmtEnd := by
  simp [atStmtEnd]

end Cursor

theorem arrowBehindParens_bare (depth : Nat) (tokens : List Token) :
    arrowBehindParens depth (tokens.map Token.bare) = arrowBehindParens depth tokens := by
  induction tokens generalizing depth with
  | nil => rfl
  | cons t rest ih =>
    have seen : (Cursor.mk (rest.map Token.bare) {}).sees .fatArrow =
        (Cursor.mk rest t.span).sees .fatArrow := Cursor.sees_bare ⟨rest, t.span⟩ .fatArrow
    simp only [List.map_cons, arrowBehindParens, Token.bare, ih, seen]

@[simp] theorem Cursor.atArrow_bare (c : Cursor) : c.bare.atArrow = c.atArrow := by
  simp only [atArrow, kind_bare, advance_bare, sees_bare]
  simp only [bare, arrowBehindParens_bare]

def bareOutcome {α : Type} (f : α → α) : Except SyntaxError α → Except SyntaxError α
  | .ok a => .ok (f a)
  | .error e => .error e.bare

section

variable {α β : Type}

theorem bareOutcome_bind (f : α → α) (g : β → β) (x : Except SyntaxError α)
    (k k' : α → Except SyntaxError β) (same : ∀ a, k' (f a) = bareOutcome g (k a)) :
    (bareOutcome f x >>= k') = bareOutcome g (x >>= k) := by
  cases x with
  | ok a => exact same a
  | error e => rfl

@[simp] theorem bareOutcome_ok (f : α → α) (a : α) : bareOutcome f (.ok a) = .ok (f a) := rfl

@[simp] theorem bareOutcome_pure (f : α → α) (a : α) : bareOutcome f (pure a) = pure (f a) := rfl

theorem bareOutcome_fail (f : α → α) (c : Cursor) (fault : ParseFault) :
    c.bare.fail fault = bareOutcome f (c.fail fault) := by
  simp [Cursor.fail, bareOutcome, SyntaxError.bare]

end

namespace Cursor

theorem expect_bare (c : Cursor) (wanted : TokenKind) :
    c.bare.expect wanted = bareOutcome bare (c.expect wanted) := by
  unfold expect
  rw [kind_bare, advance_bare]
  split
  · rfl
  · exact bareOutcome_fail bare c _

theorem name_bare (c : Cursor) : c.bare.name = bareOutcome (Prod.map id bare) c.name := by
  unfold name
  rw [kind_bare, advance_bare]
  split
  · rfl
  · exact bareOutcome_fail _ c _

theorem property_bare (c : Cursor) : c.bare.property = bareOutcome (Prod.map id bare) c.property := by
  unfold property
  rw [kind_bare, advance_bare]
  split
  · rfl
  · rfl
  · exact bareOutcome_fail _ c _

end Cursor

namespace Grammar

theorem paramNames_bare (fuel : Nat) (c : Cursor) :
    paramNames fuel c.bare = bareOutcome (Prod.map id Cursor.bare) (paramNames fuel c) := by
  induction fuel generalizing c with
  | zero => exact bareOutcome_fail _ c _
  | succ fuel ih =>
    simp only [paramNames, Cursor.sees_bare, Cursor.name_bare]
    split
    · rfl
    · refine bareOutcome_bind _ _ _ _ _ fun (name, c) => ?_
      simp only [Prod.map, Cursor.sees_bare, Cursor.advance_bare]
      split
      · rw [ih]
        exact bareOutcome_bind _ _ _ _ _ fun (names, c) => rfl
      · rfl

theorem params_bare (fuel : Nat) (c : Cursor) :
    params fuel c.bare = bareOutcome (Prod.map id Cursor.bare) (params fuel c) := by
  simp only [params, Cursor.expect_bare]
  refine bareOutcome_bind _ _ _ _ _ fun c => ?_
  rw [paramNames_bare]
  refine bareOutcome_bind _ _ _ _ _ fun (names, c) => ?_
  simp only [Prod.map, Cursor.expect_bare]
  exact bareOutcome_bind _ _ _ _ _ fun c => rfl

def SpanFreeRule {α : Type} (f : α → α) (rule : Cursor → Except SyntaxError (α × Cursor)) : Prop :=
  ∀ c : Cursor, rule c.bare = bareOutcome (Prod.map f Cursor.bare) (rule c)

structure SpanFree (fuel : Nat) : Prop where
  stmt : SpanFreeRule Stmt.bare (stmt fuel)
  stmts : SpanFreeRule Stmt.bares (stmts fuel)
  block : SpanFreeRule Stmt.bares (block fuel)
  blockStmts : SpanFreeRule Stmt.bares (blockStmts fuel)
  varDecl : SpanFreeRule VarDecl.bare (varDecl fuel)
  varDeclFrom (kind : DeclKind) (start : Span) (name : String) (c : Cursor) :
    varDeclFrom fuel kind {} name c.bare =
      bareOutcome (Prod.map VarDecl.bare Cursor.bare) (varDeclFrom fuel kind start name c)
  declarators (name : String) : SpanFreeRule Declarator.bares (declarators fuel name)
  initializer : SpanFreeRule Expr.bareOption (initializer fuel)
  func (named : Bool) : SpanFreeRule Func.bare (func fuel named)
  header : SpanFreeRule Expr.bare (header fuel)
  ifElse : SpanFreeRule Stmt.bare (ifElse fuel)
  forLoop : SpanFreeRule Loop.bare (forLoop fuel)
  forHeader (start : Span) (init : ForInit) (c : Cursor) :
    forHeader fuel {} init.bare c.bare =
      bareOutcome (Prod.map Loop.bare Cursor.bare) (forHeader fuel start init c)
  exprUnless (m : Mark) : SpanFreeRule Expr.bareOption (exprUnless fuel m)
  forEach (start : Span) (decl : Option DeclKind) (binding : String) (values : Bool) (c : Cursor) :
    forEach fuel {} decl binding values c.bare =
      bareOutcome (Prod.map Loop.bare Cursor.bare) (forEach fuel start decl binding values c)
  whileLoop : SpanFreeRule Loop.bare (whileLoop fuel)
  doWhile : SpanFreeRule Loop.bare (doWhile fuel)
  assignment : SpanFreeRule Expr.bare (assignment fuel)
  conditional : SpanFreeRule Expr.bare (conditional fuel)
  binary (least : Nat) : SpanFreeRule Expr.bare (binary fuel least)
  binaryTail (least : Nat) (lhs : Expr) (c : Cursor) :
    binaryTail fuel least lhs.bare c.bare =
      bareOutcome (Prod.map Expr.bare Cursor.bare) (binaryTail fuel least lhs c)
  unary : SpanFreeRule Expr.bare (unary fuel)
  postfixTail (e : Expr) (c : Cursor) :
    postfixTail fuel e.bare c.bare =
      bareOutcome (Prod.map Expr.bare Cursor.bare) (postfixTail fuel e c)
  primary : SpanFreeRule Expr.bare (primary fuel)
  items (close : Mark) : SpanFreeRule Expr.bares (items fuel close)
  arrow : SpanFreeRule Expr.bare (arrow fuel)
  arrowParams : SpanFreeRule id (arrowParams fuel)

theorem spanFree_zero : SpanFree 0 := by
  constructor <;> intros <;> try intro c
  all_goals exact bareOutcome_fail _ _ _

namespace SpanFree

variable {fuel : Nat}

theorem stmt_succ (h : SpanFree fuel) : SpanFreeRule Stmt.bare (Grammar.stmt (fuel + 1)) := by
  intro c
  simp only [Grammar.stmt, Cursor.kind_bare, Cursor.span_bare]
  split
  all_goals try
    rw [h.varDecl]
    refine bareOutcome_bind _ _ _ _ _ fun (decl, c) => ?_
    simp [Stmt.bare]
  · rw [h.func]
    refine bareOutcome_bind _ _ _ _ _ fun (f, c) => ?_
    simp [Stmt.bare]
  · exact h.ifElse c
  · rw [h.forLoop]
    refine bareOutcome_bind _ _ _ _ _ fun (l, c) => ?_
    simp [Stmt.bare]
  · rw [h.whileLoop]
    refine bareOutcome_bind _ _ _ _ _ fun (l, c) => ?_
    simp [Stmt.bare]
  · rw [h.doWhile]
    refine bareOutcome_bind _ _ _ _ _ fun (l, c) => ?_
    simp [Stmt.bare]
  · rw [h.block]
    refine bareOutcome_bind _ _ _ _ _ fun (body, c) => ?_
    simp [Stmt.bare]
  · simp only [Cursor.advance_bare, Cursor.atStmtEnd_bare]
    split
    · simp [Stmt.bare]
    · rw [h.assignment]
      refine bareOutcome_bind _ _ _ _ _ fun (value, c) => ?_
      simp [Stmt.bare]
  · simp [Stmt.bare]
  · simp [Stmt.bare]
  · simp [Stmt.bare]
  · rw [h.assignment]
    refine bareOutcome_bind _ _ _ _ _ fun (e, c) => ?_
    simp [Stmt.bare]

theorem stmts_succ (h : SpanFree fuel) : SpanFreeRule Stmt.bares (Grammar.stmts (fuel + 1)) := by
  intro c
  simp only [Grammar.stmts, Cursor.kind_bare]
  split
  · rfl
  · rw [h.stmt]
    refine bareOutcome_bind _ _ _ _ _ fun (first, c) => ?_
    simp only [Prod.map_apply]
    rw [h.stmts]
    exact bareOutcome_bind _ _ _ _ _ fun (rest, c) => rfl

theorem block_succ (h : SpanFree fuel) : SpanFreeRule Stmt.bares (Grammar.block (fuel + 1)) := by
  intro c
  simp only [Grammar.block, Cursor.expect_bare]
  refine bareOutcome_bind _ _ _ _ _ fun c => ?_
  rw [h.blockStmts]
  refine bareOutcome_bind _ _ _ _ _ fun (body, c) => ?_
  simp

theorem blockStmts_succ (h : SpanFree fuel) :
    SpanFreeRule Stmt.bares (Grammar.blockStmts (fuel + 1)) := by
  intro c
  simp only [Grammar.blockStmts, Cursor.sees_bare, Cursor.kind_bare]
  split
  · rfl
  split
  · exact bareOutcome_fail _ c _
  · rw [h.stmt]
    refine bareOutcome_bind _ _ _ _ _ fun (first, c) => ?_
    simp only [Prod.map_apply]
    rw [h.blockStmts]
    exact bareOutcome_bind _ _ _ _ _ fun (rest, c) => rfl

theorem varDecl_succ (h : SpanFree fuel) :
    SpanFreeRule VarDecl.bare (Grammar.varDecl (fuel + 1)) := by
  intro c
  simp only [Grammar.varDecl, Cursor.kind_bare, Cursor.span_bare, Cursor.advance_bare]
  split
  · exact bareOutcome_fail _ c _
  · rw [Cursor.name_bare]
    exact bareOutcome_bind _ _ _ _ _ fun (name, next) => h.varDeclFrom _ _ name next

theorem varDeclFrom_succ (h : SpanFree fuel) (kind : DeclKind) (start : Span) (name : String)
    (c : Cursor) :
    Grammar.varDeclFrom (fuel + 1) kind {} name c.bare =
      bareOutcome (Prod.map VarDecl.bare Cursor.bare)
        (Grammar.varDeclFrom (fuel + 1) kind start name c) := by
  simp only [Grammar.varDeclFrom]
  rw [h.declarators]
  refine bareOutcome_bind _ _ _ _ _ fun (ds, c) => ?_
  simp [VarDecl.bare]

theorem declarators_succ (h : SpanFree fuel) (name : String) :
    SpanFreeRule Declarator.bares (Grammar.declarators (fuel + 1) name) := by
  intro c
  simp only [Grammar.declarators, Cursor.last_bare]
  rw [h.initializer]
  refine bareOutcome_bind _ _ _ _ _ fun (init, c) => ?_
  simp only [Prod.map_apply, Cursor.sees_bare, Cursor.advance_bare]
  split
  · rw [Cursor.name_bare]
    refine bareOutcome_bind _ _ _ _ _ fun (next, c) => ?_
    simp only [Prod.map_apply, id]
    rw [h.declarators]
    refine bareOutcome_bind _ _ _ _ _ fun (rest, c) => ?_
    simp [Declarator.bare]
  · simp [Declarator.bare]

theorem initializer_succ (h : SpanFree fuel) :
    SpanFreeRule Expr.bareOption (Grammar.initializer (fuel + 1)) := by
  intro c
  simp only [Grammar.initializer, Cursor.sees_bare, Cursor.advance_bare]
  split
  · rw [h.assignment]
    exact bareOutcome_bind _ _ _ _ _ fun (e, c) => rfl
  · rfl

theorem func_succ (h : SpanFree fuel) (named : Bool) :
    SpanFreeRule Func.bare (Grammar.func (fuel + 1) named) := by
  have rest (start : Span) (name : Option String) (c : Cursor) :
      (params fuel c.bare >>= fun x => Grammar.block fuel x.2 >>= fun y =>
        pure (Func.block name x.1 y.1 (Span.cover {} y.2.last), y.2)) =
      bareOutcome (Prod.map Func.bare Cursor.bare)
        (params fuel c >>= fun x => Grammar.block fuel x.2 >>= fun y =>
          pure (Func.block name x.1 y.1 (start.cover y.2.last), y.2)) := by
    rw [params_bare]
    refine bareOutcome_bind _ _ _ _ _ fun (ps, c) => ?_
    simp only [Prod.map_apply, id]
    rw [h.block]
    refine bareOutcome_bind _ _ _ _ _ fun (body, c) => ?_
    simp [Func.bare]
  intro c
  simp only [Grammar.func, Cursor.expect_bare, Cursor.span_bare]
  refine bareOutcome_bind _ _ _ _ _ fun after => ?_
  simp only [Cursor.kind_bare, Cursor.advance_bare]
  split
  · exact rest c.span (some _) after.advance
  · split
    · exact bareOutcome_fail _ after _
    · exact rest c.span none after

theorem header_succ (h : SpanFree fuel) : SpanFreeRule Expr.bare (Grammar.header (fuel + 1)) := by
  intro c
  simp only [Grammar.header, Cursor.expect_bare]
  refine bareOutcome_bind _ _ _ _ _ fun c => ?_
  rw [h.assignment]
  refine bareOutcome_bind _ _ _ _ _ fun (e, c) => ?_
  simp only [Prod.map_apply, Cursor.expect_bare]
  exact bareOutcome_bind _ _ _ _ _ fun c => rfl

theorem ifElse_succ (h : SpanFree fuel) : SpanFreeRule Stmt.bare (Grammar.ifElse (fuel + 1)) := by
  intro c
  simp only [Grammar.ifElse, Cursor.expect_bare, Cursor.span_bare]
  refine bareOutcome_bind _ _ _ _ _ fun c => ?_
  rw [h.header]
  refine bareOutcome_bind _ _ _ _ _ fun (test, c) => ?_
  simp only [Prod.map_apply]
  rw [h.stmt]
  refine bareOutcome_bind _ _ _ _ _ fun (consequent, c) => ?_
  simp only [Prod.map_apply, Cursor.kind_bare, Cursor.advance_bare]
  split
  · rw [h.stmt]
    refine bareOutcome_bind _ _ _ _ _ fun (alternate, c) => ?_
    simp [Stmt.bare]
  · simp [Stmt.bare]

theorem forLoop_succ (h : SpanFree fuel) : SpanFreeRule Loop.bare (Grammar.forLoop (fuel + 1)) := by
  have expression (start : Span) (c : Cursor) :
      (Grammar.assignment fuel c.bare >>= fun x => Grammar.forHeader fuel {} (.expr x.1) x.2) =
      bareOutcome (Prod.map Loop.bare Cursor.bare)
        (Grammar.assignment fuel c >>= fun x => Grammar.forHeader fuel start (.expr x.1) x.2) := by
    rw [h.assignment]
    exact bareOutcome_bind _ _ _ _ _ fun (e, c) => h.forHeader start (.expr e) c
  intro c
  simp only [Grammar.forLoop, Cursor.expect_bare, Cursor.span_bare]
  refine bareOutcome_bind _ _ _ _ _ fun first => ?_
  rw [Cursor.expect_bare]
  refine bareOutcome_bind _ _ _ _ _ fun next => ?_
  simp only [Cursor.kind_bare, Cursor.advance_bare, Cursor.eachWord?_bare, Cursor.span_bare]
  split
  · exact h.forHeader c.span .none next
  all_goals try
    split
    · exact bareOutcome_fail _ next _
    · rw [Cursor.name_bare]
      refine bareOutcome_bind _ _ _ _ _ fun (name, c') => ?_
      simp only [Prod.map_apply, id, Cursor.eachWord?_bare, Cursor.advance_bare]
      split
      · exact h.forEach c.span _ name _ c'.advance
      · rw [h.varDeclFrom _ next.span]
        exact bareOutcome_bind _ _ _ _ _ fun (decl, c') => h.forHeader c.span (.varDecl decl) c'
  · split
    · exact h.forEach c.span none _ _ next.advance.advance
    · exact expression c.span next
  · exact expression c.span next

theorem forHeader_succ (h : SpanFree fuel) (start : Span) (init : ForInit) (c : Cursor) :
    Grammar.forHeader (fuel + 1) {} init.bare c.bare =
      bareOutcome (Prod.map Loop.bare Cursor.bare)
        (Grammar.forHeader (fuel + 1) start init c) := by
  simp only [Grammar.forHeader, Cursor.expect_bare]
  refine bareOutcome_bind _ _ _ _ _ fun c => ?_
  rw [h.exprUnless]
  refine bareOutcome_bind _ _ _ _ _ fun (test, c) => ?_
  simp only [Prod.map_apply, Cursor.expect_bare]
  refine bareOutcome_bind _ _ _ _ _ fun c => ?_
  rw [h.exprUnless]
  refine bareOutcome_bind _ _ _ _ _ fun (update, c) => ?_
  simp only [Prod.map_apply, Cursor.expect_bare]
  refine bareOutcome_bind _ _ _ _ _ fun c => ?_
  rw [h.stmt]
  refine bareOutcome_bind _ _ _ _ _ fun (body, c) => ?_
  simp [Loop.bare]

theorem exprUnless_succ (h : SpanFree fuel) (m : Mark) :
    SpanFreeRule Expr.bareOption (Grammar.exprUnless (fuel + 1) m) := by
  intro c
  simp only [Grammar.exprUnless, Cursor.sees_bare]
  split
  · rfl
  · rw [h.assignment]
    exact bareOutcome_bind _ _ _ _ _ fun (e, c) => rfl

theorem forEach_succ (h : SpanFree fuel) (start : Span) (decl : Option DeclKind) (binding : String)
    (values : Bool) (c : Cursor) :
    Grammar.forEach (fuel + 1) {} decl binding values c.bare =
      bareOutcome (Prod.map Loop.bare Cursor.bare)
        (Grammar.forEach (fuel + 1) start decl binding values c) := by
  simp only [Grammar.forEach]
  rw [h.assignment]
  refine bareOutcome_bind _ _ _ _ _ fun (iterable, c) => ?_
  simp only [Prod.map_apply, Cursor.expect_bare]
  refine bareOutcome_bind _ _ _ _ _ fun c => ?_
  rw [h.stmt]
  refine bareOutcome_bind _ _ _ _ _ fun (body, c) => ?_
  simp [Loop.bare]

theorem whileLoop_succ (h : SpanFree fuel) :
    SpanFreeRule Loop.bare (Grammar.whileLoop (fuel + 1)) := by
  intro c
  simp only [Grammar.whileLoop, Cursor.expect_bare, Cursor.span_bare]
  refine bareOutcome_bind _ _ _ _ _ fun c => ?_
  rw [h.header]
  refine bareOutcome_bind _ _ _ _ _ fun (test, c) => ?_
  simp only [Prod.map_apply]
  rw [h.stmt]
  refine bareOutcome_bind _ _ _ _ _ fun (body, c) => ?_
  simp [Loop.bare]

theorem doWhile_succ (h : SpanFree fuel) : SpanFreeRule Loop.bare (Grammar.doWhile (fuel + 1)) := by
  intro c
  simp only [Grammar.doWhile, Cursor.expect_bare, Cursor.span_bare]
  refine bareOutcome_bind _ _ _ _ _ fun c => ?_
  rw [h.stmt]
  refine bareOutcome_bind _ _ _ _ _ fun (body, c) => ?_
  simp only [Prod.map_apply, Cursor.expect_bare]
  refine bareOutcome_bind _ _ _ _ _ fun c => ?_
  rw [h.header]
  refine bareOutcome_bind _ _ _ _ _ fun (test, c) => ?_
  simp [Loop.bare]

theorem assignment_succ (h : SpanFree fuel) :
    SpanFreeRule Expr.bare (Grammar.assignment (fuel + 1)) := by
  intro c
  simp only [Grammar.assignment, Cursor.atArrow_bare]
  split
  · exact h.arrow c
  · rw [h.conditional]
    refine bareOutcome_bind _ _ _ _ _ fun (target, c) => ?_
    simp only [Prod.map_apply, Cursor.assignOp?_bare, Expr.isTarget_bare, Expr.text_bare,
      Cursor.advance_bare]
    split
    · rfl
    · split
      · rw [h.assignment]
        refine bareOutcome_bind _ _ _ _ _ fun (value, c) => ?_
        simp [Expr.bare]
      · exact bareOutcome_fail _ c _

theorem conditional_succ (h : SpanFree fuel) :
    SpanFreeRule Expr.bare (Grammar.conditional (fuel + 1)) := by
  intro c
  simp only [Grammar.conditional]
  rw [h.binary]
  refine bareOutcome_bind _ _ _ _ _ fun (test, c) => ?_
  simp only [Prod.map_apply, Cursor.sees_bare, Cursor.advance_bare]
  split
  · rw [h.assignment]
    refine bareOutcome_bind _ _ _ _ _ fun (consequent, c) => ?_
    simp only [Prod.map_apply, Cursor.expect_bare]
    refine bareOutcome_bind _ _ _ _ _ fun c => ?_
    rw [h.assignment]
    refine bareOutcome_bind _ _ _ _ _ fun (alternate, c) => ?_
    simp [Expr.bare]
  · rfl

theorem binary_succ (h : SpanFree fuel) (least : Nat) :
    SpanFreeRule Expr.bare (Grammar.binary (fuel + 1) least) := by
  intro c
  simp only [Grammar.binary]
  rw [h.unary]
  exact bareOutcome_bind _ _ _ _ _ fun (lhs, c) => h.binaryTail least lhs c

theorem binaryTail_succ (h : SpanFree fuel) (least : Nat) (lhs : Expr) (c : Cursor) :
    Grammar.binaryTail (fuel + 1) least lhs.bare c.bare =
      bareOutcome (Prod.map Expr.bare Cursor.bare)
        (Grammar.binaryTail (fuel + 1) least lhs c) := by
  simp only [Grammar.binaryTail, Cursor.binOp?_bare, Cursor.advance_bare]
  split
  · rfl
  · split
    · rfl
    · rw [h.binary]
      refine bareOutcome_bind _ _ _ _ _ fun (rhs, c) => ?_
      simpa [Expr.bare] using h.binaryTail least (.binary lhs _ rhs (lhs.span.cover rhs.span)) c

theorem unary_succ (h : SpanFree fuel) : SpanFreeRule Expr.bare (Grammar.unary (fuel + 1)) := by
  intro c
  simp only [Grammar.unary, Cursor.kind_bare, Cursor.span_bare, Cursor.advance_bare]
  split
  · rw [h.unary]
    refine bareOutcome_bind _ _ _ _ _ fun (operand, c) => ?_
    simp [Expr.bare]
  · rw [h.unary]
    refine bareOutcome_bind _ _ _ _ _ fun (target, c) => ?_
    simp [Expr.bare]
  · rw [h.primary]
    exact bareOutcome_bind _ _ _ _ _ fun (e, c) => h.postfixTail e c

theorem postfixTail_succ (h : SpanFree fuel) (e : Expr) (c : Cursor) :
    Grammar.postfixTail (fuel + 1) e.bare c.bare =
      bareOutcome (Prod.map Expr.bare Cursor.bare) (Grammar.postfixTail (fuel + 1) e c) := by
  simp only [Grammar.postfixTail, Cursor.kind_bare, Cursor.advance_bare]
  split
  · rw [h.items]
    refine bareOutcome_bind _ _ _ _ _ fun (args, c) => ?_
    simpa [Expr.bare] using h.postfixTail (.call e args (e.span.cover c.last)) c
  · rw [Cursor.property_bare]
    refine bareOutcome_bind _ _ _ _ _ fun (name, c) => ?_
    simpa [Expr.bare] using h.postfixTail (.member e name (e.span.cover c.last)) c
  · rw [h.assignment]
    refine bareOutcome_bind _ _ _ _ _ fun (i, c) => ?_
    simp only [Prod.map_apply, Cursor.expect_bare]
    refine bareOutcome_bind _ _ _ _ _ fun c => ?_
    simpa [Expr.bare] using h.postfixTail (.index e i (e.span.cover c.last)) c
  · simpa [Expr.bare] using
      h.postfixTail (.update .increment false e (e.span.cover c.advance.last)) c.advance
  · simpa [Expr.bare] using
      h.postfixTail (.update .decrement false e (e.span.cover c.advance.last)) c.advance
  · rfl

theorem primary_succ (h : SpanFree fuel) : SpanFreeRule Expr.bare (Grammar.primary (fuel + 1)) := by
  intro c
  simp only [Grammar.primary, Cursor.kind_bare, Cursor.span_bare, Cursor.advance_bare]
  split
  all_goals try rfl
  · rw [h.items]
    refine bareOutcome_bind _ _ _ _ _ fun (es, c) => ?_
    simp [Expr.bare]
  · rw [h.assignment]
    refine bareOutcome_bind _ _ _ _ _ fun (e, c) => ?_
    simp only [Prod.map_apply, Cursor.expect_bare]
    refine bareOutcome_bind _ _ _ _ _ fun c => ?_
    simp
  · rw [h.func]
    refine bareOutcome_bind _ _ _ _ _ fun (f, c) => ?_
    simp [Expr.bare]
  · exact bareOutcome_fail _ c _

theorem items_succ (h : SpanFree fuel) (close : Mark) :
    SpanFreeRule Expr.bares (Grammar.items (fuel + 1) close) := by
  intro c
  simp only [Grammar.items, Cursor.sees_bare, Cursor.advance_bare]
  split
  · rfl
  · rw [h.assignment]
    refine bareOutcome_bind _ _ _ _ _ fun (first, c) => ?_
    simp only [Prod.map_apply, Cursor.sees_bare, Cursor.advance_bare]
    split
    · rw [h.items]
      exact bareOutcome_bind _ _ _ _ _ fun (rest, c) => rfl
    · rw [Cursor.expect_bare]
      exact bareOutcome_bind _ _ _ _ _ fun c => rfl

theorem arrow_succ (h : SpanFree fuel) : SpanFreeRule Expr.bare (Grammar.arrow (fuel + 1)) := by
  intro c
  simp only [Grammar.arrow, Cursor.span_bare]
  rw [h.arrowParams]
  refine bareOutcome_bind _ _ _ _ _ fun (ps, c) => ?_
  simp only [Prod.map_apply, id, Cursor.expect_bare]
  refine bareOutcome_bind _ _ _ _ _ fun c => ?_
  rw [Cursor.sees_bare]
  split
  · rw [h.block]
    refine bareOutcome_bind _ _ _ _ _ fun (body, c) => ?_
    simp [Expr.bare, Func.bare]
  · rw [h.assignment]
    refine bareOutcome_bind _ _ _ _ _ fun (value, c) => ?_
    simp [Expr.bare, Func.bare]

theorem arrowParams_succ : SpanFreeRule id (Grammar.arrowParams (fuel + 1)) := by
  intro c
  simp only [Grammar.arrowParams, Cursor.sees_bare]
  split
  · exact params_bare fuel c
  · rw [Cursor.name_bare]
    exact bareOutcome_bind _ _ _ _ _ fun (name, c) => rfl

end SpanFree

theorem spanFree (fuel : Nat) : SpanFree fuel := by
  induction fuel with
  | zero => exact spanFree_zero
  | succ fuel ih =>
    exact
      { stmt := ih.stmt_succ
        stmts := ih.stmts_succ
        block := ih.block_succ
        blockStmts := ih.blockStmts_succ
        varDecl := ih.varDecl_succ
        varDeclFrom := ih.varDeclFrom_succ
        declarators := ih.declarators_succ
        initializer := ih.initializer_succ
        func := ih.func_succ
        header := ih.header_succ
        ifElse := ih.ifElse_succ
        forLoop := ih.forLoop_succ
        forHeader := ih.forHeader_succ
        exprUnless := ih.exprUnless_succ
        forEach := ih.forEach_succ
        whileLoop := ih.whileLoop_succ
        doWhile := ih.doWhile_succ
        assignment := ih.assignment_succ
        conditional := ih.conditional_succ
        binary := ih.binary_succ
        binaryTail := ih.binaryTail_succ
        unary := ih.unary_succ
        postfixTail := ih.postfixTail_succ
        primary := ih.primary_succ
        items := ih.items_succ
        arrow := ih.arrow_succ
        arrowParams := SpanFree.arrowParams_succ }

end Grammar

theorem Program.ofTokens_bare (tokens : List Token) :
    Program.ofTokens (tokens.map Token.bare) = bareOutcome Program.bare (Program.ofTokens tokens) := by
  have start : Cursor.mk (tokens.map Token.bare) {} = (Cursor.mk tokens {}).bare := rfl
  simp only [Program.ofTokens, Grammar.allowance, List.length_map, start]
  rw [(Grammar.spanFree _).stmts]
  cases Grammar.stmts (16 * (tokens.length + 1)) ⟨tokens, {}⟩ with
  | ok read => simp [bareOutcome, Program.bare]
  | error e => rfl

end SortTrace.Script
