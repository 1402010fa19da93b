import SortTrace.Proofs.Script.Mirrors
import SortTrace.Proofs.Script.ReaderRules

/-!
The rules of the grammar over tokens with one more semicolon: each comes to the same tree, up to spans,
as long as the semicolon ends a statement that may take one.
-/

namespace SortTrace.Script

open Outline (ends)

theorem Cursor.eachWord?_twin_none {ts : List Token} {m i : Nat} {p : Bool} {c : Cursor}
    (inside : m ≤ ts.length) (behind : c.Behind ts i) (near : p = true ∨ i ≤ m)
    (none : c.eachWord? = none) : (twin ts m p i).eachWord? = Option.none :=
  (peek_twin TokenKind.eachWord? inside behind near none.symm).trans none

namespace Grammar

variable {ts : List Token} {m fuel : Nat} {α : Type}

/-- The rule mirrors itself from every place, and the semicolon is passed on the way when a node that the
rule builds ends at its place. -/
def Mirrored (ts : List Token) (m room slack : Nat) (outlines : α → List Outline) (f : α → α)
    (rule : Cursor → Except SyntaxError (α × Cursor)) : Prop :=
  ∀ {p : Bool} {i : Nat} {c : Cursor}, c.Behind ts i →
    Mirrors ts m p i room slack (fun a => p || ends m (outlines a)) f (rule c) (rule (.twin ts m p i))

structure Mirroring (ts : List Token) (m fuel : Nat) : Prop where
  place : Place ts m
  stmt : Mirrored ts m 1 0 (fun s => [s.outline]) Stmt.bare (stmt fuel)
  stmts : Mirrored ts m 1 1 Stmt.outlines Stmt.bares (stmts fuel)
  block : Mirrored ts m 1 0 Stmt.outlines Stmt.bares (block fuel)
  blockStmts : Mirrored ts m 1 1 Stmt.outlines Stmt.bares (blockStmts fuel)
  varDecl : Mirrored ts m 1 0 (fun d => [d.outline]) VarDecl.bare (varDecl fuel)
  varDeclFrom (kind : DeclKind) (start : Span) (name : String) {p : Bool} {i : Nat} {c : Cursor}
    (behind : c.Behind ts i) :
    Mirrors ts m p i 0 0 (fun d => p || ends m [d.outline]) VarDecl.bare
      (varDeclFrom fuel kind start name c) (varDeclFrom fuel kind {} name (.twin ts m p i))
  declarators (name : String) :
    Mirrored ts m 0 0 Declarator.outlines Declarator.bares (declarators fuel name)
  initializer : Mirrored ts m 0 0 Expr.optionOutlines Expr.bareOption (initializer fuel)
  func (named : Bool) : Mirrored ts m 1 0 (fun f => [f.outline]) Func.bare (func fuel named)
  header : Mirrored ts m 1 0 (fun e => [e.outline]) Expr.bare (header fuel)
  ifElse : Mirrored ts m 1 0 (fun s => [s.outline]) Stmt.bare (ifElse fuel)
  forLoop : Mirrored ts m 1 0 (fun l => [l.outline]) Loop.bare (forLoop fuel)
  forHeader (start : Span) (init : ForInit) {p q : Bool} {i : Nat} {c : Cursor}
    (behind : c.Behind ts i) (before : q = (p || ends m init.outlines)) :
    Mirrors ts m q i 1 0 (fun l => p || ends m [l.outline]) Loop.bare
      (forHeader fuel start init c) (forHeader fuel {} init.bare (.twin ts m q i))
  exprUnless (k : Mark) : Mirrored ts m 1 1 Expr.optionOutlines Expr.bareOption (exprUnless fuel k)
  forEach (start : Span) (decl : Option DeclKind) (binding : String) (values : Bool) {p : Bool}
    {i : Nat} {c : Cursor} (behind : c.Behind ts i) :
    Mirrors ts m p i 1 0 (fun l => p || ends m [l.outline]) Loop.bare
      (forEach fuel start decl binding values c)
      (forEach fuel {} decl binding values (.twin ts m p i))
  whileLoop : Mirrored ts m 1 0 (fun l => [l.outline]) Loop.bare (whileLoop fuel)
  doWhile : Mirrored ts m 1 0 (fun l => [l.outline]) Loop.bare (doWhile fuel)
  assignment : Mirrored ts m 1 0 (fun e => [e.outline]) Expr.bare (assignment fuel)
  conditional : Mirrored ts m 1 0 (fun e => [e.outline]) Expr.bare (conditional fuel)
  binary (least : Nat) : Mirrored ts m 1 0 (fun e => [e.outline]) Expr.bare (binary fuel least)
  binaryTail (least : Nat) (lhs : Expr) {p q : Bool} {i : Nat} {c : Cursor} (behind : c.Behind ts i)
    (before : q = (p || ends m [lhs.outline])) :
    Mirrors ts m q i 0 0 (fun e => p || ends m [e.outline]) Expr.bare
      (binaryTail fuel least lhs c) (binaryTail fuel least lhs.bare (.twin ts m q i))
  unary : Mirrored ts m 1 0 (fun e => [e.outline]) Expr.bare (unary fuel)
  postfixTail (e : Expr) {p q : Bool} {i : Nat} {c : Cursor} (behind : c.Behind ts i)
    (before : q = (p || ends m [e.outline])) :
    Mirrors ts m q i 0 0 (fun e => p || ends m [e.outline]) Expr.bare
      (postfixTail fuel e c) (postfixTail fuel e.bare (.twin ts m q i))
  primary : Mirrored ts m 1 0 (fun e => [e.outline]) Expr.bare (primary fuel)
  items (close : Mark) : Mirrored ts m 1 0 Expr.outlines Expr.bares (items fuel close)
  arrow : Mirrored ts m 1 0 (fun e => [e.outline]) Expr.bare (arrow fuel)

theorem mirroring_zero (place : Place ts m) : Mirroring ts m 0 := by
  constructor <;> intros
  all_goals first
    | exact place
    | exact Mirrors.fail _
    | exact fun _ => Mirrors.fail _

theorem paramNames_mirrored (place : Place ts m) (fuel : Nat) {p : Bool} {i : Nat} {c : Cursor}
    (behind : c.Behind ts i) :
    Mirrors ts m p i 1 1 (fun _ => p) id (paramNames fuel c) (paramNames fuel (.twin ts m p i)) := by
  induction fuel generalizing i c with
  | zero => exact .fail _
  | succ fuel ih =>
    rw [paramNames, paramNames]
    refine .ite_sees place behind (fun _ => ?_) fun _ => ?_
    · exact .ok behind rfl (Nat.le_refl 1) fun _ => rfl
    refine (Mirrors.name place behind).bind 0 fun name d j behind _ => ?_
    refine .ite_sees_near place behind (by simp) (fun comma => ?_) fun _ => ?_
    · refine (Mirrors.pass place behind (Cursor.more_of_sees comma) fun next => ih next).bind 0
        fun names d k behind _ => ?_
      exact .ok behind rfl (Nat.le_refl 1) fun _ => rfl
    · exact .ok behind rfl (Nat.zero_le 1) fun _ => rfl

theorem params_mirrored (place : Place ts m) {p : Bool} {i : Nat} {c : Cursor}
    (behind : c.Behind ts i) :
    Mirrors ts m p i 1 0 (fun _ => p) id (params fuel c) (params fuel (.twin ts m p i)) := by
  refine .expect 1 place behind (by simp) fun d behind => ?_
  refine (paramNames_mirrored place fuel behind).bind 0 fun names d j behind _ => ?_
  refine .expect 0 place behind (by simp) fun d behind => ?_
  exact .ok behind rfl (Nat.le_refl 0) fun _ => rfl

theorem arrowParams_mirrored (place : Place ts m) {p : Bool} {i : Nat} {c : Cursor}
    (behind : c.Behind ts i) :
    Mirrors ts m p i 1 0 (fun _ => p) id (arrowParams fuel c) (arrowParams fuel (.twin ts m p i)) := by
  cases fuel with
  | zero => exact .fail _
  | succ fuel =>
    rw [arrowParams, arrowParams]
    refine .ite_sees place behind (fun _ => ?_) fun _ => ?_
    · exact params_mirrored place behind
    · refine (Mirrors.name place behind).bind 0 fun name d j behind _ => ?_
      exact .ok behind rfl (Nat.le_refl 0) fun _ => rfl

theorem sees_of_blockStmts {c d : Cursor} {body : List Stmt}
    (read : blockStmts fuel c = .ok (body, d)) : d.sees .rbrace = true := by
  induction fuel generalizing c body with
  | zero => cases read
  | succ fuel ih =>
    rw [blockStmts] at read
    split at read
    · rename_i closed
      cases read
      exact closed
    split at read
    · cases read
    · obtain ⟨⟨first, e⟩, -, read⟩ := ok_of_bind read
      obtain ⟨⟨rest, e⟩, further, read⟩ := ok_of_bind read
      cases read
      exact ih further

theorem ends_withSpan (s : Span) (e : Expr) :
    ends m [(e.withSpan s).outline] = ends m [e.outline] := by
  cases e <;> simp [Expr.withSpan, Expr.outline]

namespace Mirroring

variable (h : Mirroring ts m fuel)

include h

theorem stmts_succ : Mirrored ts m 1 1 Stmt.outlines Stmt.bares (Grammar.stmts (fuel + 1)) := by
  intro p i c behind
  rw [Grammar.stmts, Grammar.stmts]
  refine .ite (fun live => ?_) (fun _ => ?_) fun _ => ?_
  · rw [Cursor.kind_twin h.place.inside behind live]
  · exact .ok behind (by simp [Stmt.outlines]) (Nat.le_refl 1) fun _ => rfl
  · refine (h.stmt behind).bind 1 fun first d j behind _ => ?_
    refine (h.stmts behind).bind 0 fun rest d k behind _ => ?_
    refine .ok behind ?_ (Nat.le_refl 1) fun _ => rfl
    rw [Stmt.outlines, Outline.ends_cons, Bool.or_assoc]

theorem block_succ : Mirrored ts m 1 0 Stmt.outlines Stmt.bares (Grammar.block (fuel + 1)) := by
  intro p i c behind
  refine .expect 1 h.place behind (by simp) fun d behind => ?_
  -- not by `bind`: that a brace is passed at the end shows only in the reading itself
  intro body e read
  obtain ⟨⟨body, d⟩, listed, read⟩ := ok_of_bind read
  cases read
  obtain ⟨j, passed, next, result⟩ := h.blockStmts behind body d listed
  have more : d.kind ≠ .eof := Cursor.more_of_sees (sees_of_blockStmts listed)
  refine ⟨j + 1, by omega, next.advance more, fun alive => ?_⟩
  obtain ⟨start, same⟩ := result alive
  refine ⟨start, ?_⟩
  rw [same]
  change Except.ok (_, (Cursor.twin ts m _ j).advance) = _
  rw [Cursor.advance_twin h.place.inside next alive more]

theorem blockStmts_succ :
    Mirrored ts m 1 1 Stmt.outlines Stmt.bares (Grammar.blockStmts (fuel + 1)) := by
  intro p i c behind
  rw [Grammar.blockStmts, Grammar.blockStmts]
  refine .ite_sees h.place behind (fun _ => ?_) fun _ => ?_
  · exact .ok behind (by simp [Stmt.outlines]) (Nat.le_refl 1) fun _ => rfl
  refine .ite (fun live => ?_) (fun _ => ?_) fun _ => ?_
  · rw [Cursor.kind_twin h.place.inside behind live]
  · exact .fail _
  · refine (h.stmt behind).bind 1 fun first d j behind _ => ?_
    refine (h.blockStmts behind).bind 0 fun rest d k behind _ => ?_
    refine .ok behind ?_ (Nat.le_refl 1) fun _ => rfl
    rw [Stmt.outlines, Outline.ends_cons, Bool.or_assoc]

theorem varDecl_succ :
    Mirrored ts m 1 0 (fun d => [d.outline]) VarDecl.bare (Grammar.varDecl (fuel + 1)) := by
  intro p i c behind
  rw [Grammar.varDecl]
  cases declared : c.kind.declKind? with
  | none => exact .fail _
  | some kind =>
    have more : c.kind ≠ .eof := by
      intro ended
      simp [ended, TokenKind.declKind?] at declared
    refine .when (fun live => by
      rw [Grammar.varDecl, Cursor.kind_twin h.place.inside behind live, declared]) ?_
    refine (Mirrors.pass h.place behind more (Mirrors.name h.place)).bind 0 fun name d j behind _ => ?_
    simpa using h.varDeclFrom kind c.span name behind

theorem varDeclFrom_succ (kind : DeclKind) (start : Span) (name : String) {p : Bool} {i : Nat}
    {c : Cursor} (behind : c.Behind ts i) :
    Mirrors ts m p i 0 0 (fun d => p || ends m [d.outline]) VarDecl.bare
      (Grammar.varDeclFrom (fuel + 1) kind start name c)
      (Grammar.varDeclFrom (fuel + 1) kind {} name (.twin ts m p i)) := by
  refine (h.declarators name behind).bind 0 fun ds d j behind _ => ?_
  exact .ok behind (by simp [VarDecl.outline]) (Nat.le_refl 0) fun _ => rfl

theorem declarators_succ (name : String) :
    Mirrored ts m 0 0 Declarator.outlines Declarator.bares (Grammar.declarators (fuel + 1) name) := by
  intro p i c behind
  rw [Grammar.declarators, Grammar.declarators]
  refine (h.initializer behind).bind 0 fun init d j behind _ => ?_
  have outline (s : Span) : ends m [(Declarator.mk name init s).outline] =
      ends m (Expr.optionOutlines init) := by
    cases init <;> simp [Declarator.outline, Expr.optionOutlines]
  refine .ite_sees_near h.place behind (by simp) (fun comma => ?_) fun _ => ?_
  · refine (Mirrors.pass h.place behind (Cursor.more_of_sees comma) (Mirrors.name h.place)).bind 0
      fun next d k behind _ => ?_
    refine (h.declarators next behind).bind 0 fun rest d l behind _ => ?_
    refine .ok behind ?_ (Nat.le_refl 0) fun _ => rfl
    rw [Declarator.outlines, Outline.ends_cons, outline, Bool.or_assoc]
  · refine .ok behind ?_ (Nat.le_refl 0) fun _ => rfl
    rw [Declarator.outlines, Declarator.outlines, outline]

theorem initializer_succ :
    Mirrored ts m 0 0 Expr.optionOutlines Expr.bareOption (Grammar.initializer (fuel + 1)) := by
  intro p i c behind
  rw [Grammar.initializer, Grammar.initializer]
  refine .ite_sees_near h.place behind (by simp) (fun eq => ?_) fun _ => ?_
  · refine (Mirrors.pass h.place behind (Cursor.more_of_sees eq) h.assignment).bind 0
      fun e d j behind _ => ?_
    exact .ok behind rfl (Nat.le_refl 0) fun _ => rfl
  · exact .ok behind (by simp [Expr.optionOutlines]) (Nat.le_refl 0) fun _ => rfl

theorem func_succ (named : Bool) :
    Mirrored ts m 1 0 (fun f => [f.outline]) Func.bare (Grammar.func (fuel + 1) named) := by
  intro p i c behind
  have body (name : Option String) {j : Nat} {d : Cursor} (behind : d.Behind ts j) :
      Mirrors ts m p j 1 0 (fun f => p || ends m [Func.outline f]) Func.bare
        (Grammar.params fuel d >>= fun ps => Grammar.block fuel ps.2 >>= fun body =>
          pure (.block name ps.1 body.1 (c.span.cover body.2.last), body.2))
        (Grammar.params fuel (.twin ts m p j) >>= fun ps => Grammar.block fuel ps.2 >>= fun body =>
          pure (.block name ps.1 body.1 ((Cursor.twin ts m p i).span.cover body.2.last), body.2)) := by
    refine (params_mirrored h.place behind).bind 1 fun ps d k behind _ => ?_
    refine (h.block behind).bind 0 fun body d l behind _ => ?_
    refine .ok behind (by simp [Func.outline]) (Nat.le_refl 0) fun _ => ?_
    rw [Cursor.span_twin]
    rfl
  refine .expect 1 h.place behind (by simp) fun d behind => ?_
  cases kind : d.kind with
  | ident name =>
    have more : d.kind ≠ .eof := by simp [kind]
    refine .when (fun live => by
      rw [Cursor.kind_twin h.place.inside behind live, kind,
        Cursor.advance_twin h.place.inside behind live more]) ?_
    exact (body (some name) (behind.advance more)).mono (Nat.le_succ _)
  | _ =>
    refine .when (fun live => by
      rw [Cursor.kind_twin h.place.inside behind live, kind]) ?_
    cases named with
    | true => exact .fail _
    | false => exact body none behind

theorem header_succ :
    Mirrored ts m 1 0 (fun e => [e.outline]) Expr.bare (Grammar.header (fuel + 1)) := by
  intro p i c behind
  refine .expect 1 h.place behind (by simp) fun d behind => ?_
  refine (h.assignment behind).bind 1 fun e d j behind _ => ?_
  refine .expect 0 h.place behind (by simp) fun d behind => ?_
  exact .ok behind rfl (Nat.le_refl 0) fun _ => rfl

theorem ifElse_succ :
    Mirrored ts m 1 0 (fun s => [s.outline]) Stmt.bare (Grammar.ifElse (fuel + 1)) := by
  intro p i c behind
  refine .expect 1 h.place behind (by simp) fun d behind => ?_
  refine (h.header behind).bind 1 fun test d j behind _ => ?_
  refine (h.stmt behind).bind 0 fun consequent d k behind _ => ?_
  refine .ite_near (fun live => ?_) (fun near other => ?_) (fun word => ?_) fun _ => ?_
  · rw [Cursor.kind_twin h.place.inside behind live]
  · have common := Cursor.peek_twin (fun t => decide (t = .word .elseWord)) h.place.inside behind near
      (by simp [other])
    simpa [other] using common
  · refine (Mirrors.pass h.place behind (by simp [word]) h.stmt).bind 0 fun alternate d l behind _ => ?_
    refine .ok behind ?_ (Nat.le_refl 0) fun _ => ?_
    · simp [Stmt.outline, Node.endsAt, Node.takesSemicolon, Bool.or_assoc]
    · rw [Cursor.span_twin]
      rfl
  · refine .ok behind ?_ (Nat.le_refl 0) fun _ => ?_
    · simp [Stmt.outline, Node.endsAt, Node.takesSemicolon, Bool.or_assoc]
    · rw [Cursor.span_twin]
      rfl

theorem exprUnless_succ (k : Mark) :
    Mirrored ts m 1 1 Expr.optionOutlines Expr.bareOption (Grammar.exprUnless (fuel + 1) k) := by
  intro p i c behind
  rw [Grammar.exprUnless, Grammar.exprUnless]
  refine .ite_sees h.place behind (fun _ => ?_) fun _ => ?_
  · exact .ok behind (by simp [Expr.optionOutlines]) (Nat.le_refl 1) fun _ => rfl
  · refine (h.assignment behind).bind 0 fun e d j behind _ => ?_
    exact .ok behind rfl (Nat.zero_le 1) fun _ => rfl

theorem forHeader_succ (start : Span) (init : ForInit) {p q : Bool} {i : Nat} {c : Cursor}
    (behind : c.Behind ts i) (before : q = (p || ends m init.outlines)) :
    Mirrors ts m q i 1 0 (fun l => p || ends m [l.outline]) Loop.bare
      (Grammar.forHeader (fuel + 1) start init c)
      (Grammar.forHeader (fuel + 1) {} init.bare (.twin ts m q i)) := by
  refine .expect 1 h.place behind (by simp) fun d behind => ?_
  refine (h.exprUnless _ behind).bind 0 fun test d j behind _ => ?_
  refine .expect 1 h.place behind (by simp) fun d behind => ?_
  refine (h.exprUnless _ behind).bind 0 fun update d k behind _ => ?_
  refine .expect 1 h.place behind (by simp) fun d behind => ?_
  refine (h.stmt behind).bind 0 fun body d l behind _ => ?_
  refine .ok behind ?_ (Nat.le_refl 0) fun _ => rfl
  rw [before]
  simp [Loop.outline, Node.endsAt, Node.takesSemicolon, Bool.or_assoc]

theorem forEach_succ (start : Span) (decl : Option DeclKind) (binding : String) (values : Bool)
    {p : Bool} {i : Nat} {c : Cursor} (behind : c.Behind ts i) :
    Mirrors ts m p i 1 0 (fun l => p || ends m [l.outline]) Loop.bare
      (Grammar.forEach (fuel + 1) start decl binding values c)
      (Grammar.forEach (fuel + 1) {} decl binding values (.twin ts m p i)) := by
  refine (h.assignment behind).bind 1 fun iterable d j behind _ => ?_
  refine .expect 1 h.place behind (by simp) fun d behind => ?_
  refine (h.stmt behind).bind 0 fun body d k behind _ => ?_
  refine .ok behind ?_ (Nat.le_refl 0) fun _ => rfl
  simp [Loop.outline, Node.endsAt, Node.takesSemicolon, Bool.or_assoc]

theorem whileLoop_succ :
    Mirrored ts m 1 0 (fun l => [l.outline]) Loop.bare (Grammar.whileLoop (fuel + 1)) := by
  intro p i c behind
  refine .expect 1 h.place behind (by simp) fun d behind => ?_
  refine (h.header behind).bind 1 fun test d j behind _ => ?_
  refine (h.stmt behind).bind 0 fun body d k behind _ => ?_
  refine .ok behind ?_ (Nat.le_refl 0) fun _ => ?_
  · simp [Loop.outline, Node.endsAt, Node.takesSemicolon, Bool.or_assoc]
  · rw [Cursor.span_twin]
    rfl

theorem doWhile_succ :
    Mirrored ts m 1 0 (fun l => [l.outline]) Loop.bare (Grammar.doWhile (fuel + 1)) := by
  intro p i c start
  refine .expect 1 h.place start (by simp) fun d behind => ?_
  refine (h.stmt behind).bind 1 fun body d j behind _ => ?_
  refine .expect 1 h.place behind (by simp) fun d behind => ?_
  refine (h.header behind).bind 0 fun test d k behind _ => ?_
  refine .terminated h.place behind (fun l reached next => ?_) ?_
  · -- at least one token was read, so the span of the statement stops where the tokens before `l` do
    have stop := h.place.numbered.stop_eq (start.cover h.place.numbered.ordered next (by omega))
    simp [Loop.outline, Node.endsAt, Node.takesSemicolon, Node.span, Loop.span, stop,
      Bool.or_comm, Bool.or_left_comm]
  · rw [Cursor.span_twin, Cursor.last_skip_twin]
    rfl

theorem conditional_succ :
    Mirrored ts m 1 0 (fun e => [e.outline]) Expr.bare (Grammar.conditional (fuel + 1)) := by
  intro p i c behind
  refine (h.binary 1 behind).bind 0 fun test d j behind _ => ?_
  refine .ite_sees_near h.place behind (by simp) (fun question => ?_) fun _ => ?_
  · refine (Mirrors.pass h.place behind (Cursor.more_of_sees question) h.assignment).bind 1
      fun consequent d k behind _ => ?_
    refine .expect 1 h.place behind (by simp) fun d behind => ?_
    refine (h.assignment behind).bind 0 fun alternate d l behind _ => ?_
    refine .ok behind ?_ (Nat.le_refl 0) fun _ => ?_
    · simp [Expr.outline, Bool.or_assoc]
    · dsimp only
      rw [test.span_bare, alternate.span_bare]
      rfl
  · exact .ok behind rfl (Nat.le_refl 0) fun _ => rfl

theorem binary_succ (least : Nat) :
    Mirrored ts m 1 0 (fun e => [e.outline]) Expr.bare (Grammar.binary (fuel + 1) least) := by
  intro p i c behind
  refine (h.unary behind).bind 0 fun lhs d j behind _ => ?_
  exact h.binaryTail least lhs behind rfl

theorem binaryTail_succ (least : Nat) (lhs : Expr) {p q : Bool} {i : Nat} {c : Cursor}
    (behind : c.Behind ts i) (before : q = (p || ends m [lhs.outline])) :
    Mirrors ts m q i 0 0 (fun e => p || ends m [e.outline]) Expr.bare
      (Grammar.binaryTail (fuel + 1) least lhs c)
      (Grammar.binaryTail (fuel + 1) least lhs.bare (.twin ts m q i)) := by
  rw [Grammar.binaryTail, Grammar.binaryTail]
  cases operator : c.binOp? with
  | none =>
    refine .ok behind before.symm (Nat.le_refl 0) fun near => ?_
    have none : (Cursor.twin ts m q i).binOp? = none :=
      (Cursor.peek_twin TokenKind.binOp? h.place.inside behind near operator.symm).trans operator
    rw [none]
  | some op =>
    have more : c.kind ≠ .eof := by
      intro ended
      simp [Cursor.binOp?, ended] at operator
    dsimp only
    split
    · rename_i loose
      refine .ok behind before.symm (Nat.le_refl 0) fun near => ?_
      rcases Cursor.kind_twin_or h.place.inside behind near with same | other
      · rw [Cursor.binOp?, same, ← Cursor.binOp?, operator]
        exact if_pos loose
      · rw [Cursor.binOp?, other]
        rfl
    rename_i tight
    refine .near (.when (fun live => by
      rw [Cursor.binOp?, Cursor.kind_twin h.place.inside behind live, ← Cursor.binOp?, operator]) ?_)
    dsimp only
    rw [if_neg tight]
    refine (Mirrors.pass h.place behind more (h.binary _)).bind 0 fun rhs d j behind _ => ?_
    dsimp only
    rw [lhs.span_bare, rhs.span_bare]
    exact h.binaryTail least (.binary lhs op rhs (lhs.span.cover rhs.span)) behind
      (by simp [before, Expr.outline, Bool.or_assoc])

theorem items_succ (close : Mark) :
    Mirrored ts m 1 0 Expr.outlines Expr.bares (Grammar.items (fuel + 1) close) := by
  intro p i c behind
  rw [Grammar.items, Grammar.items]
  refine .ite_sees h.place behind (fun closed => ?_) fun _ => ?_
  · have more := Cursor.more_of_sees closed
    refine .when (fun live => by rw [Cursor.advance_twin h.place.inside behind live more]) ?_
    refine Mirrors.mono (.ok (behind.advance more) ?_ (Nat.le_refl 0) fun _ => rfl) (Nat.le_refl _)
    simp [Expr.outlines]
  refine (h.assignment behind).bind 1 fun first d j behind _ => ?_
  refine .ite_sees h.place behind (fun comma => ?_) fun _ => ?_
  · refine (Mirrors.pass h.place behind (Cursor.more_of_sees comma) (h.items close)).bind 0
      fun rest d k behind _ => ?_
    refine .ok behind ?_ (Nat.le_refl 0) fun _ => rfl
    rw [Expr.outlines, Outline.ends_cons, Bool.or_assoc]
  · refine .expect 0 h.place behind (by simp) fun d behind => ?_
    exact .ok behind rfl (Nat.le_refl 0) fun _ => rfl

theorem arrow_succ :
    Mirrored ts m 1 0 (fun e => [e.outline]) Expr.bare (Grammar.arrow (fuel + 1)) := by
  intro p i c behind
  refine (arrowParams_mirrored h.place behind).bind 1 fun ps d j behind _ => ?_
  refine .expect 1 h.place behind (by simp) fun d behind => ?_
  refine .ite_sees h.place behind (fun _ => ?_) fun _ => ?_
  · refine (h.block behind).bind 0 fun body d k behind _ => ?_
    refine .ok behind ?_ (Nat.le_refl 0) fun _ => ?_
    · simp [Expr.outline, Func.outline]
    · rw [Cursor.span_twin]
      rfl
  · refine (h.assignment behind).bind 0 fun value d k behind _ => ?_
    refine .ok behind ?_ (Nat.le_refl 0) fun _ => ?_
    · simp [Expr.outline, Func.outline]
    · rw [Cursor.span_twin]
      rfl

theorem assignment_succ :
    Mirrored ts m 1 0 (fun e => [e.outline]) Expr.bare (Grammar.assignment (fuel + 1)) := by
  intro p i c behind
  rw [Grammar.assignment, Grammar.assignment]
  cases ahead : c.atArrow with
  | true =>
    -- the semicolon may hide the arrow from the look ahead, but not where an arrow function is read
    refine .replace (fun live r read => ?_) (h.arrow behind)
    obtain ⟨e, d⟩ := r
    rw [if_pos (atArrow_of_arrow read)]
    exact read
  | false =>
    refine .when (fun live => by
      rw [Cursor.atArrow_twin h.place.inside behind live ahead]) ?_
    refine (h.conditional behind).bind 0 fun target d j behind _ => ?_
    dsimp only
    cases operator : d.assignOp? with
    | none =>
      refine .ok behind rfl (Nat.le_refl 0) fun near => ?_
      have none : Cursor.assignOp? (.twin ts m _ j) = none :=
        (Cursor.peek_twin TokenKind.assignOp? h.place.inside behind near operator.symm).trans operator
      rw [none]
      rfl
    | some op =>
      have more : d.kind ≠ .eof := by
        intro ended
        simp [Cursor.assignOp?, ended] at operator
      refine .near (.when (fun live => by
        rw [Cursor.assignOp?, Cursor.kind_twin h.place.inside behind live, ← Cursor.assignOp?,
          operator]) ?_)
      dsimp only
      rw [target.isTarget_bare]
      split
      · refine (Mirrors.pass h.place behind more h.assignment).bind 0 fun value d k behind _ => ?_
        refine .ok behind ?_ (Nat.le_refl 0) fun _ => ?_
        · simp [Expr.outline, Bool.or_assoc]
        · dsimp only
          rw [target.span_bare, value.span_bare]
          rfl
      · exact .fail _

theorem unary_operand (node : Expr → Span → Expr) {p : Bool} {i : Nat} {c : Cursor}
    (behind : c.Behind ts i) (more : c.kind ≠ .eof)
    (outline : ∀ e s, (node e s).outline = .mk (.expr (node e s)) [e.outline])
    (bare : ∀ e s, (node e s).bare = node e.bare {}) :
    Mirrors ts m p i 1 0 (fun e => p || ends m [Expr.outline e]) Expr.bare
      (Grammar.unary fuel c.advance >>= fun e => pure (node e.1 (c.span.cover e.1.span), e.2))
      (Grammar.unary fuel (Cursor.twin ts m p i).advance >>= fun e =>
        pure (node e.1 (Span.cover {} e.1.span), e.2)) := by
  refine (Mirrors.pass h.place behind more h.unary).bind 0 fun operand d j behind _ => ?_
  refine .ok behind ?_ (Nat.le_refl 0) fun _ => ?_
  · simp [outline]
  · dsimp only
    rw [bare, operand.span_bare]
    rfl

theorem unary_succ :
    Mirrored ts m 1 0 (fun e => [e.outline]) Expr.bare (Grammar.unary (fuel + 1)) := by
  intro p i c behind
  rw [Grammar.unary]
  refine .when (fun live => by
    rw [Grammar.unary, Cursor.kind_twin h.place.inside behind live, Cursor.span_twin]) ?_
  cases prefixed : c.kind.unaryOp? with
  | some op =>
    have more : c.kind ≠ .eof := by
      intro ended
      simp [ended, TokenKind.unaryOp?] at prefixed
    exact h.unary_operand (.unary op) behind more (fun _ _ => rfl) fun _ _ => rfl
  | none =>
    cases updated : c.kind.updateOp? with
    | some op =>
      have more : c.kind ≠ .eof := by
        intro ended
        simp [ended, TokenKind.updateOp?] at updated
      exact h.unary_operand (.update op true) behind more (fun _ _ => rfl) fun _ _ => rfl
    | none =>
      refine (h.primary behind).bind 0 fun e d j behind _ => ?_
      exact h.postfixTail e behind rfl

theorem postfixTail_succ (e : Expr) {p q : Bool} {i : Nat} {c : Cursor} (behind : c.Behind ts i)
    (before : q = (p || ends m [e.outline])) :
    Mirrors ts m q i 0 0 (fun e => p || ends m [e.outline]) Expr.bare
      (Grammar.postfixTail (fuel + 1) e c)
      (Grammar.postfixTail (fuel + 1) e.bare (.twin ts m q i)) := by
  have stays {t : TokenKind} (kind : c.kind = t)
      (stops : ∀ d : Cursor, d.kind = t → Grammar.postfixTail (fuel + 1) e.bare d = .ok (e.bare, d)) :
      Mirrors ts m q i 0 0 (fun e => p || ends m [Expr.outline e]) Expr.bare (.ok (e, c))
        (Grammar.postfixTail (fuel + 1) e.bare (.twin ts m q i)) := by
    refine .ok behind before.symm (Nat.le_refl 0) fun near => ?_
    rcases Cursor.kind_twin_or h.place.inside behind near with same | other
    · exact stops _ (same.trans kind)
    · rw [Grammar.postfixTail, other]
  rw [Grammar.postfixTail]
  cases kind : c.kind with
  | mark k =>
    have more : c.kind ≠ .eof := by simp [kind]
    cases k with
    | lparen =>
      refine .near (.when (fun live => by
        rw [Grammar.postfixTail, Cursor.kind_twin h.place.inside behind live, kind, e.span_bare]) ?_)
      refine (Mirrors.pass h.place behind more (h.items _)).bind 0 fun args d j behind _ => ?_
      refine h.postfixTail (.call e args (e.span.cover d.last)) behind ?_
      rw [before, Expr.outline, Outline.ends_mk_cons, Outline.ends_cons _ (Expr.outlines args)]
      simp [Bool.or_assoc]
    | dot =>
      refine .near (.when (fun live => by
        rw [Grammar.postfixTail, Cursor.kind_twin h.place.inside behind live, kind, e.span_bare]) ?_)
      refine (Mirrors.pass h.place behind more (Mirrors.property h.place)).bind 0
        fun name d j behind _ => ?_
      exact h.postfixTail (.member e name (e.span.cover d.last)) behind (by simp [before, Expr.outline])
    | lbracket =>
      refine .near (.when (fun live => by
        rw [Grammar.postfixTail, Cursor.kind_twin h.place.inside behind live, kind, e.span_bare]) ?_)
      refine (Mirrors.pass h.place behind more h.assignment).bind 1 fun index d j behind _ => ?_
      refine .expect 0 h.place behind (by simp) fun d behind => ?_
      exact h.postfixTail (.index e index (e.span.cover d.last)) behind
        (by simp [before, Expr.outline, Bool.or_assoc])
    | plusPlus | minusMinus =>
      refine .near (.when (fun live => by
        rw [Grammar.postfixTail, Cursor.kind_twin h.place.inside behind live, kind, e.span_bare,
          Cursor.advance_twin h.place.inside behind live more]) ?_)
      exact (h.postfixTail (.update _ false e (e.span.cover c.advance.last))
        (behind.advance more) (by simp [before, Expr.outline])).mono (Nat.le_refl _)
    | _ => exact stays kind fun d same => by rw [Grammar.postfixTail, same]
  | _ => exact stays kind fun d same => by rw [Grammar.postfixTail, same]

theorem primary_leaf {node : Span → Expr} {p : Bool} {i : Nat} {c : Cursor} (behind : c.Behind ts i)
    (more : c.kind ≠ .eof) (outline : ∀ s, (node s).outline = .mk (.expr (node s)) [])
    (bare : ∀ s, (node s).bare = node {}) :
    Mirrors ts m p i 1 0 (fun e => p || ends m [Expr.outline e]) Expr.bare
      (.ok (node (c.span.cover c.advance.last), c.advance))
      (.ok (node (Span.cover {} (Cursor.twin ts m p i).advance.last),
        (Cursor.twin ts m p i).advance)) := by
  refine .when (fun live => by rw [Cursor.advance_twin h.place.inside behind live more]) ?_
  refine .mono (.ok (behind.advance more) ?_ (Nat.le_refl 0) fun _ => ?_) (Nat.le_refl _)
  · simp [outline]
  · rw [bare]
    rfl

theorem primary_succ :
    Mirrored ts m 1 0 (fun e => [e.outline]) Expr.bare (Grammar.primary (fuel + 1)) := by
  intro p i c behind
  rw [Grammar.primary]
  refine .when (fun live => by
    rw [Grammar.primary, Cursor.kind_twin h.place.inside behind live, Cursor.span_twin]) ?_
  by_cases ended : c.kind = .eof
  · rw [ended]
    exact .fail _
  cases kind : c.kind with
  | number _ | str _ | template _ | ident _ =>
    exact h.primary_leaf behind ended (fun _ => rfl) fun _ => rfl
  | word w =>
    cases w with
    | trueWord | falseWord | nullWord => exact h.primary_leaf behind ended (fun _ => rfl) fun _ => rfl
    | functionWord =>
      refine (h.func false behind).bind 0 fun f d j behind _ => ?_
      exact .ok behind (by simp [Expr.outline]) (Nat.le_refl 0) fun _ => rfl
    | _ => exact .fail _
  | mark k =>
    cases k with
    | lbracket =>
      refine (Mirrors.pass h.place behind ended (h.items _)).bind 0 fun es d j behind _ => ?_
      exact .ok behind (by simp [Expr.outline]) (Nat.le_refl 0) fun _ => rfl
    | lparen =>
      refine (Mirrors.pass h.place behind ended h.assignment).bind 1 fun e d j behind _ => ?_
      refine .expect 0 h.place behind (by simp) fun d behind => ?_
      refine .ok behind ?_ (Nat.le_refl 0) fun _ => ?_
      · rw [ends_withSpan]
      · rw [e.withSpan_bare]
        exact congrArg (fun e => Except.ok (e, _)) e.bare_withSpan
    | _ => exact .fail _
  | eof => exact absurd kind ended

theorem forLoop_succ :
    Mirrored ts m 1 0 (fun l => [l.outline]) Loop.bare (Grammar.forLoop (fuel + 1)) := by
  intro p i c behind
  rw [Grammar.forLoop, Grammar.forLoop, Cursor.span_twin]
  refine .expect 1 h.place behind (by simp) fun d behind => ?_
  refine .expect 1 h.place behind (by simp) fun d behind => ?_
  have plain : Mirrors ts m p (i + 1 + 1) 1 0 (fun l => p || ends m [Loop.outline l]) Loop.bare
      (Grammar.assignment fuel d >>= fun e => Grammar.forHeader fuel c.span (.expr e.1) e.2)
      (Grammar.assignment fuel (.twin ts m p (i + 1 + 1)) >>= fun e =>
        Grammar.forHeader fuel {} (.expr e.1) e.2) := by
    refine (h.assignment behind).bind 1 fun e d j behind _ => ?_
    exact h.forHeader c.span (.expr e) behind rfl
  refine .when (fun live => by
    rw [Cursor.kind_twin h.place.inside behind live, Cursor.span_twin]) ?_
  cases kind : d.kind with
  | word w =>
    have more : d.kind ≠ .eof := by simp [kind]
    cases w with
    | letWord | constWord | varWord =>
      refine (Mirrors.pass h.place behind more (Mirrors.name h.place)).bind 0
        fun name e j behind _ => ?_
      dsimp only
      cases each : e.eachWord? with
      | some values =>
        refine .near (.when (fun live => by
          rw [Cursor.eachWord?, Cursor.kind_twin h.place.inside behind live, ← Cursor.eachWord?,
            each]) ?_)
        exact Mirrors.pass h.place behind (Cursor.more_of_eachWord each) (h.forEach c.span _ name values)
      | none =>
        refine .when (fun near => by
          rw [Cursor.eachWord?_twin_none h.place.inside behind near each]) ?_
        refine (h.varDeclFrom _ d.span name behind).bind 1 fun decl d k behind _ => ?_
        exact h.forHeader c.span (.varDecl decl) behind rfl
    | _ => exact plain
  | ident name =>
    have more : d.kind ≠ .eof := by simp [kind]
    have next := behind.advance more
    dsimp only
    cases each : d.advance.eachWord? with
    | some values =>
      refine .mono (.when (fun live => ?_) (Mirrors.pass (p := p) h.place next (Cursor.more_of_eachWord each)
        (h.forEach c.span none name values))) (Nat.le_succ _)
      have before : p = true ∨ i + 1 + 1 < m := live.imp_right fun ahead => by omega
      rw [Cursor.advance_twin h.place.inside behind before more, Cursor.eachWord?,
        Cursor.kind_twin h.place.inside next live, ← Cursor.eachWord?, each]
    | none =>
      refine .when (fun live => by
        rw [Cursor.advance_twin h.place.inside behind live more,
          Cursor.eachWord?_twin_none h.place.inside next live each]) plain
  | mark k =>
    cases k with
    | semicolon => exact h.forHeader c.span .none behind (by simp [ForInit.outlines])
    | _ => exact plain
  | _ => exact plain

omit h in
theorem stmt_spanned {node node' : Span → Stmt} {below : List Outline} {p q : Bool} {i : Nat}
    {start : Span} {c : Cursor} (behind : c.Behind ts i) (before : q = (p || ends m below))
    (outline : ∀ s, (node s).outline = .mk (.stmt (node s)) below)
    (other : ∀ s, (Node.stmt (node s)).takesSemicolon = false)
    (bare : ∀ s, (node s).bare = node' {}) :
    Mirrors ts m q i 0 0 (fun s => p || ends m [Stmt.outline s]) Stmt.bare
      (.ok (node (start.cover c.last), c))
      (.ok (node' (Span.cover {} (Cursor.twin ts m q i).last), .twin ts m q i)) := by
  refine .ok behind ?_ (Nat.le_refl 0) fun _ => ?_
  · simp [outline, Node.endsAt, other, before]
  · rw [bare]
    rfl

theorem stmt_closed {node node' : Span → Stmt} {below : List Outline} {p q : Bool} {i j : Nat}
    {c d : Cursor} (start : c.Behind ts i) (behind : d.Behind ts j) (less : i < j)
    (before : q = (p || ends m below))
    (outline : ∀ s, (node s).outline = .mk (.stmt (node s)) below) (span : ∀ s, (node s).span = s)
    (takes : ∀ s, (Node.stmt (node s)).takesSemicolon = true)
    (bare : ∀ s, (node s).bare = node' {}) :
    Mirrors ts m q j 0 0 (fun s => p || ends m [Stmt.outline s]) Stmt.bare
      (.ok (node (c.span.cover (d.skip .semicolon).last), d.skip .semicolon))
      (.ok (node' (Span.cover {} ((Cursor.twin ts m q j).skip .semicolon).last),
        (Cursor.twin ts m q j).skip .semicolon)) := by
  refine .terminated h.place behind (fun l reached next => ?_) ?_
  · -- at least one token was read, so the span of the statement stops where the tokens before `l` do
    have stop := h.place.numbered.stop_eq (start.cover h.place.numbered.ordered next (by omega))
    simp [outline, Node.endsAt, takes, Node.span, span, stop, before, Bool.or_comm,
      Bool.or_left_comm]
  · rw [Cursor.last_skip_twin, bare]
    rfl

theorem stmt_valued (node : Expr → Span → Stmt) {p : Bool} {i j : Nat} {c d : Cursor}
    (start : c.Behind ts i) (behind : d.Behind ts j) (reached : i ≤ j)
    (outline : ∀ e s, (node e s).outline = .mk (.stmt (node e s)) [e.outline])
    (span : ∀ e s, (node e s).span = s)
    (takes : ∀ e s, (Node.stmt (node e s)).takesSemicolon = true)
    (bare : ∀ e s, (node e s).bare = node e.bare {}) :
    Mirrors ts m p j 1 0 (fun s => p || ends m [Stmt.outline s]) Stmt.bare
      (Grammar.assignment fuel d >>= fun e =>
        pure (node e.1 (c.span.cover (e.2.skip .semicolon).last), e.2.skip .semicolon))
      (Grammar.assignment fuel (.twin ts m p j) >>= fun e =>
        pure (node e.1 (Span.cover {} (e.2.skip .semicolon).last), e.2.skip .semicolon)) := by
  refine (h.assignment behind).bind 0 fun e d k behind less => ?_
  exact h.stmt_closed start behind (by omega) rfl (outline e) (span e) (takes e) (bare e)

theorem stmt_return {p : Bool} {i : Nat} {c : Cursor} (start : c.Behind ts i)
    (word : c.kind = .word .returnWord) :
    Mirrors ts m p i 1 0 (fun s => p || ends m [Stmt.outline s]) Stmt.bare
      (Grammar.stmt (fuel + 1) c) (Grammar.stmt (fuel + 1) (.twin ts m p i)) := by
  have more : c.kind ≠ .eof := by simp [word]
  have next := start.advance more
  rw [Grammar.stmt, word]
  dsimp only
  cases ended : c.advance.atStmtEnd with
  | true =>
    -- the semicolon ends the statement where a brace or the end of the tokens did
    have nothing : p = (p || ends m []) := by simp
    refine .when (fun live => ?_) (.mono (h.stmt_closed start next (Nat.lt_succ_self i) nothing
      (fun _ => rfl) (fun _ => rfl) (fun _ => rfl) fun _ => rfl) (Nat.le_refl _))
    have ended' : (Cursor.twin ts m p (i + 1)).atStmtEnd = true :=
      (Cursor.peek_twin TokenKind.endsStmt h.place.inside next live ended.symm).trans ended
    rw [Grammar.stmt, Cursor.kind_twin h.place.inside start live, Cursor.span_twin, word]
    dsimp only
    rw [Cursor.advance_twin h.place.inside start live more, if_pos ended']
    rfl
  | false =>
    have valued := h.stmt_valued (p := p) (fun e => .ret (some e)) start next (Nat.le_succ i)
      (fun _ _ => rfl) (fun _ _ => rfl) (fun _ _ => rfl) fun _ _ => rfl
    refine .mono (.when (fun live => ?_) valued) (Nat.le_succ _)
    have before : p = true ∨ i < m := live.imp_right fun ahead => by omega
    rw [Grammar.stmt, Cursor.kind_twin h.place.inside start before, Cursor.span_twin, word]
    dsimp only
    rw [Cursor.advance_twin h.place.inside start before more, Cursor.atStmtEnd,
      Cursor.kind_twin h.place.inside next live, ← Cursor.atStmtEnd, ended]
    rfl

theorem stmt_succ :
    Mirrored ts m 1 0 (fun s => [s.outline]) Stmt.bare (Grammar.stmt (fuel + 1)) := by
  intro p i c start
  by_cases returns : c.kind = .word .returnWord
  · exact h.stmt_return start returns
  rw [Grammar.stmt]
  refine .when (fun live => by
    rw [Grammar.stmt, Cursor.kind_twin h.place.inside start live, Cursor.span_twin]) ?_
  have plain := h.stmt_valued (p := p) .expr start start (Nat.le_refl i) (fun _ _ => rfl)
    (fun _ _ => rfl) (fun _ _ => rfl) fun _ _ => rfl
  have nothing : p = (p || ends m []) := by simp
  cases kind : c.kind with
  | word w =>
    have more : c.kind ≠ .eof := by simp [kind]
    cases w with
    | letWord | constWord | varWord =>
      refine (h.varDecl start).bind 0 fun decl d j behind less => ?_
      exact h.stmt_closed start behind less rfl (fun _ => rfl) (fun _ => rfl) (fun _ => rfl)
        fun _ => rfl
    | functionWord =>
      refine (h.func true start).bind 0 fun f d j behind _ => ?_
      exact stmt_spanned behind rfl (fun _ => rfl) (fun _ => rfl) fun _ => rfl
    | ifWord => exact h.ifElse start
    | forWord =>
      refine (h.forLoop start).bind 0 fun l d j behind _ => ?_
      exact stmt_spanned behind rfl (fun _ => rfl) (fun _ => rfl) fun _ => rfl
    | whileWord =>
      refine (h.whileLoop start).bind 0 fun l d j behind _ => ?_
      exact stmt_spanned behind rfl (fun _ => rfl) (fun _ => rfl) fun _ => rfl
    | doWord =>
      refine (h.doWhile start).bind 0 fun l d j behind _ => ?_
      exact stmt_spanned behind rfl (fun _ => rfl) (fun _ => rfl) fun _ => rfl
    | returnWord => exact absurd kind returns
    | breakWord | continueWord =>
      refine .when (fun live => by rw [Cursor.advance_twin h.place.inside start live more]) ?_
      refine .mono (h.stmt_closed start (start.advance more) (Nat.lt_succ_self i) nothing
        (fun _ => rfl) (fun _ => rfl) (fun _ => rfl) fun _ => rfl) (Nat.le_refl _)
    | _ => exact plain
  | mark k =>
    cases k with
    | lbrace =>
      refine (h.block start).bind 0 fun body d j behind _ => ?_
      exact stmt_spanned behind rfl (fun _ => rfl) (fun _ => rfl) fun _ => rfl
    | semicolon =>
      have more : c.kind ≠ .eof := by simp [kind]
      refine .when (fun live => by rw [Cursor.advance_twin h.place.inside start live more]) ?_
      exact .mono (stmt_spanned (start.advance more) nothing (fun _ => rfl) (fun _ => rfl)
        fun _ => rfl) (Nat.le_refl _)
    | _ => exact plain
  | _ => exact plain

end Mirroring

theorem mirroring (place : Place ts m) (fuel : Nat) : Mirroring ts m fuel := by
  induction fuel with
  | zero => exact mirroring_zero place
  | succ fuel h =>
    exact {
      place := place
      stmt := h.stmt_succ
      stmts := h.stmts_succ
      block := h.block_succ
      blockStmts := h.blockStmts_succ
      varDecl := h.varDecl_succ
      varDeclFrom := h.varDeclFrom_succ
      declarators := h.declarators_succ
      initializer := h.initializer_succ
      func := h.func_succ
      header := h.header_succ
      ifElse := h.ifElse_succ
      forLoop := h.forLoop_succ
      forHeader := h.forHeader_succ
      exprUnless := h.exprUnless_succ
      forEach := h.forEach_succ
      whileLoop := h.whileLoop_succ
      doWhile := h.doWhile_succ
      assignment := h.assignment_succ
      conditional := h.conditional_succ
      binary := h.binary_succ
      binaryTail := h.binaryTail_succ
      unary := h.unary_succ
      postfixTail := h.postfixTail_succ
      primary := h.primary_succ
      items := h.items_succ
      arrow := h.arrow_succ }

end Grammar

end SortTrace.Script
