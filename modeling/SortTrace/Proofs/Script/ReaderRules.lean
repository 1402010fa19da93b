import SortTrace.Proofs.Script.Following

/-!
The rules of the grammar over a reader that follows cursors come to what the rules over the cursors
come to. A rule asks for 16 units of fuel for each token ahead, and for one more than the rules that
it starts with.
-/

namespace SortTrace.Script

namespace Grammar

def closedStmts (fuel : Nat) (c : Cursor) : Except SyntaxError (List Stmt × Cursor) := do
  let (body, c) ← blockStmts fuel c
  return (body, c.advance)

theorem closedStmts_succ (fuel : Nat) (c : Cursor) :
    closedStmts (fuel + 1) c =
      if c.sees .rbrace then .ok ([], c.advance)
      else if c.kind = .eof then c.fail .unclosedBlock
      else do
        let (first, c) ← stmt fuel c
        let (rest, c) ← closedStmts fuel c
        return (first :: rest, c) := by
  unfold closedStmts
  rw [blockStmts]
  split
  · rfl
  split
  · rfl
  rcases Grammar.stmt fuel c with e | ⟨first, c⟩
  · rfl
  change (blockStmts fuel c >>= _) >>= _ = (blockStmts fuel c >>= _) >>= _
  rcases blockStmts fuel c with e | ⟨rest, c⟩ <;> rfl

end Grammar

theorem Cursor.more_of_sees {c : Cursor} {m : Mark} (seen : c.sees m = true) : c.kind ≠ .eof := by
  rw [Cursor.sees, decide_eq_true_eq] at seen
  simp [seen]

theorem Cursor.more_of_eachWord {c : Cursor} {values : Bool} (each : c.eachWord? = some values) :
    c.kind ≠ .eof := by
  intro ended
  simp [Cursor.eachWord?, ended] at each

namespace Reader

variable {κ ε α : Type}

/-- With fuel for the tokens ahead and `rank` more, the rule comes over the reader to what it comes
to over the cursors. -/
def Tracks (r : Reader κ ε) (goes : Nat → κ → Cursor → Prop) (apart : Span → Span → Prop)
    (rank p fuel : Nat) (rule : κ → Except ε (α × κ))
    (other : Nat → Cursor → Except SyntaxError (α × Cursor)) : Prop :=
  ∀ given n x c, goes n x c → 16 * n + rank ≤ given →
    Agrees r goes apart (16 * n + rank ≤ fuel) n p (rule x) (other given c)

variable {r : Reader κ ε} {goes : Nat → κ → Cursor → Prop} {apart : Span → Span → Prop}

theorem Tracks.zero {rank p : Nat} {other : Nat → Cursor → Except SyntaxError (α × Cursor)}
    (ranked : 0 < rank) : Tracks r goes apart rank p 0 (fun x => r.fail x .tooDeep) other :=
  fun _ n _ _ _ _ => .short (by omega)

theorem Tracks.of_succ {rank p fuel : Nat} {rule : κ → Except ε (α × κ)}
    {other : Nat → Cursor → Except SyntaxError (α × Cursor)} (ranked : 0 < rank)
    (further : ∀ given n x c, goes n x c → 16 * n + rank ≤ given + 1 →
      Agrees r goes apart (16 * n + rank ≤ fuel) n p (rule x) (other (given + 1) c)) :
    Tracks r goes apart rank p fuel rule other := by
  intro given n x c related enough
  cases given with
  | zero => omega
  | succ given => exact further given n x c related enough

theorem Tracks.call {rank p fuel : Nat} {rule : κ → Except ε (α × κ)}
    {other : Nat → Cursor → Except SyntaxError (α × Cursor)} {β : Type} {enough : Prop}
    {given n q m : Nat} {x : κ} {c : Cursor} {k : α × κ → Except ε (β × κ)}
    {k' : α × Cursor → Except SyntaxError (β × Cursor)}
    (tracks : Tracks r goes apart rank p fuel rule other) (related : goes m x c)
    (plenty : 16 * m + rank ≤ given) (tight : enough → 16 * m + rank ≤ fuel)
    (further : ∀ v y d l, goes l y d → l + p ≤ m →
      Agrees r goes apart enough n q (k (v, y)) (k' (v, d))) :
    Agrees r goes apart enough n q (rule x >>= k) (other given c >>= k') :=
  (tracks given m x c related plenty).bind tight further

theorem Follows.sees (follows : Follows r goes apart) {n : Nat} {x : κ} {c : Cursor}
    (related : goes n x c) (m : Mark) : r.sees x m = c.sees m := by
  rw [Reader.sees, Cursor.sees, follows.kind related]

theorem Follows.ne_zero (follows : Follows r goes apart) {n : Nat} {x : κ} {c : Cursor}
    (related : goes n x c) (more : c.kind ≠ .eof) : n ≠ 0 := by
  obtain ⟨m, y, fewer, -, -⟩ := follows.advance related more
  omega

structure Tracking (r : Reader κ ε) (goes : Nat → κ → Cursor → Prop)
    (apart : Span → Span → Prop) (fuel : Nat) : Prop where
  paramNames : Tracks r goes apart 1 0 fuel (r.paramNames fuel) Grammar.paramNames
  stmt : Tracks r goes apart 7 1 fuel (r.stmt fuel) Grammar.stmt
  stmts : Tracks r goes apart 8 0 fuel (r.stmts fuel) Grammar.stmts
  block : Tracks r goes apart 1 1 fuel (r.block fuel) Grammar.block
  blockStmts : Tracks r goes apart 8 1 fuel (r.blockStmts fuel) Grammar.closedStmts
  varDecl : Tracks r goes apart 1 1 fuel (r.varDecl fuel) Grammar.varDecl
  varDeclFrom (kind : DeclKind) (start : Span) (name : String) :
    Tracks r goes apart 3 0 fuel (r.varDeclFrom fuel kind start name)
      (Grammar.varDeclFrom · kind start name)
  declarators (name : String) :
    Tracks r goes apart 2 0 fuel (r.declarators fuel name) (Grammar.declarators · name)
  initializer : Tracks r goes apart 1 0 fuel (r.initializer fuel) Grammar.initializer
  func (named : Bool) : Tracks r goes apart 1 1 fuel (r.func fuel named) (Grammar.func · named)
  header : Tracks r goes apart 1 1 fuel (r.header fuel) Grammar.header
  ifElse : Tracks r goes apart 1 1 fuel (r.ifElse fuel) Grammar.ifElse
  forLoop : Tracks r goes apart 1 1 fuel (r.forLoop fuel) Grammar.forLoop
  forHeader (start : Span) (init : ForInit) :
    Tracks r goes apart 1 1 fuel (r.forHeader fuel start init) (Grammar.forHeader · start init)
  exprUnless (m : Mark) :
    Tracks r goes apart 7 0 fuel (r.exprUnless fuel m) (Grammar.exprUnless · m)
  forEach (start : Span) (decl : Option DeclKind) (binding : String) (values : Bool) :
    Tracks r goes apart 7 1 fuel (r.forEach fuel start decl binding values)
      (Grammar.forEach · start decl binding values)
  whileLoop : Tracks r goes apart 1 1 fuel (r.whileLoop fuel) Grammar.whileLoop
  doWhile : Tracks r goes apart 1 1 fuel (r.doWhile fuel) Grammar.doWhile
  assignment : Tracks r goes apart 6 1 fuel (r.assignment fuel) Grammar.assignment
  conditional : Tracks r goes apart 5 1 fuel (r.conditional fuel) Grammar.conditional
  binary (least : Nat) : Tracks r goes apart 4 1 fuel (r.binary fuel least) (Grammar.binary · least)
  binaryTail (least : Nat) (lhs : Expr) :
    Tracks r goes apart 1 0 fuel (r.binaryTail fuel least lhs) (Grammar.binaryTail · least lhs)
  unary : Tracks r goes apart 3 1 fuel (r.unary fuel) Grammar.unary
  postfixTail (e : Expr) :
    Tracks r goes apart 1 0 fuel (r.postfixTail fuel e) (Grammar.postfixTail · e)
  primary : Tracks r goes apart 2 1 fuel (r.primary fuel) Grammar.primary
  items (close : Mark) : Tracks r goes apart 7 1 fuel (r.items fuel close) (Grammar.items · close)
  arrow : Tracks r goes apart 2 1 fuel (r.arrow fuel) Grammar.arrow

theorem tracking_zero : Tracking r goes apart 0 := by
  constructor <;> intros <;> exact .zero (by decide)

namespace Tracking

variable {fuel : Nat} (follows : Follows r goes apart) (h : Tracking r goes apart fuel)

include follows h

theorem paramNames_succ :
    Tracks r goes apart 1 0 (fuel + 1) (r.paramNames (fuel + 1)) Grammar.paramNames := by
  refine .of_succ (by decide) fun given n x c related enough => ?_
  rw [Reader.paramNames, Grammar.paramNames, follows.sees related]
  split
  · exact .ok related (by omega)
  refine (Agrees.name follows related).bind id fun name y d l related passed => ?_
  dsimp only
  rw [follows.sees related]
  split
  · rename_i comma
    refine .advance follows related (Cursor.more_of_sees comma) fun y k related fewer => ?_
    refine h.paramNames.call related (by omega) (by omega) fun names y d j related passed => ?_
    exact .ok related (by omega)
  · exact .ok related (by omega)

theorem params : Tracks r goes apart 0 1 fuel (r.params fuel) Grammar.params := by
  intro given n x c related enough
  refine .expect follows related (by simp) fun y l related fewer => ?_
  refine h.paramNames.call related (by omega) (by omega) fun names y d k related passed => ?_
  refine .expect follows related (by simp) fun y j related fewer => ?_
  exact .ok related (by omega)

theorem arrowParams :
    Tracks r goes apart 1 1 fuel (r.arrowParams fuel) Grammar.arrowParams := by
  refine .of_succ (by decide) fun given n x c related enough => ?_
  rw [Reader.arrowParams, Grammar.arrowParams, follows.sees related]
  split
  · exact (h.params follows given n x c related (by omega)).mono (by omega) (by omega)
  · refine (Agrees.name follows related).bind id fun name y d l related passed => ?_
    exact .ok related (by omega)

theorem stmts_succ : Tracks r goes apart 8 0 (fuel + 1) (r.stmts (fuel + 1)) Grammar.stmts := by
  refine .of_succ (by decide) fun given n x c related enough => ?_
  rw [Reader.stmts, Grammar.stmts, follows.kind related]
  split
  · exact .ok related (by omega)
  · refine h.stmt.call related (by omega) (by omega) fun first y d l related passed => ?_
    refine h.stmts.call related (by omega) (by omega) fun rest y d k related passed => ?_
    exact .ok related (by omega)

theorem block_succ : Tracks r goes apart 1 1 (fuel + 1) (r.block (fuel + 1)) Grammar.block := by
  refine .of_succ (by decide) fun given n x c related enough => ?_
  refine .expect follows related (by simp) fun y l related fewer => ?_
  exact (h.blockStmts given l y _ related (by omega)).mono (by omega) (by omega)

theorem blockStmts_succ :
    Tracks r goes apart 8 1 (fuel + 1) (r.blockStmts (fuel + 1)) Grammar.closedStmts := by
  refine .of_succ (by decide) fun given n x c related enough => ?_
  rw [Reader.blockStmts, Grammar.closedStmts_succ, follows.sees related, follows.kind related]
  split
  · rename_i brace
    refine .advance follows related (Cursor.more_of_sees brace) fun y l related fewer => ?_
    exact .ok related (by omega)
  split
  · exact .fail follows related (by simp)
  · refine h.stmt.call related (by omega) (by omega) fun first y d l related passed => ?_
    refine h.blockStmts.call related (by omega) (by omega) fun rest y d k related passed => ?_
    exact .ok related (by omega)

theorem varDecl_succ :
    Tracks r goes apart 1 1 (fuel + 1) (r.varDecl (fuel + 1)) Grammar.varDecl := by
  refine .of_succ (by decide) fun given n x c related enough => ?_
  rw [Reader.varDecl, Grammar.varDecl, follows.kind related]
  cases declared : c.kind.declKind? with
  | none => exact .fail follows related (by simp)
  | some kind =>
    have more : c.kind ≠ .eof := by
      intro ended
      simp [ended, TokenKind.declKind?] at declared
    dsimp only
    rw [follows.span related (follows.ne_zero related more)]
    refine .advance follows related more fun y l related fewer => ?_
    refine (Agrees.name follows related).bind id fun name y d k related passed => ?_
    exact (h.varDeclFrom kind _ name given k y d related (by omega)).mono (by omega) (by omega)

theorem varDeclFrom_succ (kind : DeclKind) (start : Span) (name : String) :
    Tracks r goes apart 3 0 (fuel + 1) (r.varDeclFrom (fuel + 1) kind start name)
      (Grammar.varDeclFrom · kind start name) := by
  refine .of_succ (by decide) fun given n x c related enough => ?_
  refine (h.declarators name).call related (by omega) (by omega) fun ds y d l related passed => ?_
  refine .spanFrom follows related ?_
  exact .ok related (by omega)

theorem declarators_succ (name : String) :
    Tracks r goes apart 2 0 (fuel + 1) (r.declarators (fuel + 1) name)
      (Grammar.declarators · name) := by
  refine .of_succ (by decide) fun given n x c related enough => ?_
  rw [Reader.declarators, Grammar.declarators, follows.last related]
  refine h.initializer.call related (by omega) (by omega) fun init y d l related passed => ?_
  refine .spanFrom follows related ?_
  dsimp only
  rw [follows.sees related]
  split
  · rename_i comma
    refine .advance follows related (Cursor.more_of_sees comma) fun y k related fewer => ?_
    refine (Agrees.name follows related).bind id fun next y d j related passed => ?_
    refine (h.declarators next).call related (by omega) (by omega) fun ds y d i related passed => ?_
    exact .ok related (by omega)
  · exact .ok related (by omega)

theorem initializer_succ :
    Tracks r goes apart 1 0 (fuel + 1) (r.initializer (fuel + 1)) Grammar.initializer := by
  refine .of_succ (by decide) fun given n x c related enough => ?_
  rw [Reader.initializer, Grammar.initializer, follows.sees related]
  split
  · rename_i eq
    refine .advance follows related (Cursor.more_of_sees eq) fun y l related fewer => ?_
    refine h.assignment.call related (by omega) (by omega) fun e y d k related passed => ?_
    exact .ok related (by omega)
  · exact .ok related (by omega)

theorem func_succ (named : Bool) :
    Tracks r goes apart 1 1 (fuel + 1) (r.func (fuel + 1) named) (Grammar.func · named) := by
  refine .of_succ (by decide) fun given n x c related enough => ?_
  refine .expect follows related (by simp) fun y l next fewer => ?_
  rw [follows.span related (by omega), follows.kind next]
  have body (name : Option String) (z : κ) (d : Cursor) (m : Nat) (related : goes m z d)
      (fewer : m ≤ l) :
      Agrees r goes apart (16 * n + 1 ≤ fuel + 1) n 1
        (r.params fuel z >>= fun ps => r.block fuel ps.2 >>= fun body =>
          r.spanFrom c.span body.2 >>= fun s => pure (.block name ps.1 body.1 s, body.2))
        (Grammar.params given d >>= fun ps => Grammar.block given ps.2 >>= fun body =>
          pure (Func.block name ps.1 body.1 (c.span.cover body.2.last), body.2)) := by
    refine (h.params follows).call related (by omega) (by omega) fun ps y d k related passed => ?_
    refine h.block.call related (by omega) (by omega) fun body y d j related passed => ?_
    exact .spanFrom follows related (.ok related (by omega))
  cases kind : c.advance.kind with
  | ident name =>
    refine .advance follows next (by simp [kind]) fun z k related fewer => ?_
    exact body name z _ k related (by omega)
  | _ =>
    cases named with
    | true => exact .fail follows next (by simp)
    | false => exact body none y _ l next (by omega)

theorem header_succ :
    Tracks r goes apart 1 1 (fuel + 1) (r.header (fuel + 1)) Grammar.header := by
  refine .of_succ (by decide) fun given n x c related enough => ?_
  refine .expect follows related (by simp) fun y l related fewer => ?_
  refine h.assignment.call related (by omega) (by omega) fun e y d k related passed => ?_
  refine .expect follows related (by simp) fun y j related fewer => ?_
  exact .ok related (by omega)

theorem ifElse_succ :
    Tracks r goes apart 1 1 (fuel + 1) (r.ifElse (fuel + 1)) Grammar.ifElse := by
  refine .of_succ (by decide) fun given n x c related enough => ?_
  refine .expect follows related (by simp) fun y l next fewer => ?_
  rw [follows.span related (by omega)]
  refine h.header.call next (by omega) (by omega) fun test y d k related passed => ?_
  refine h.stmt.call related (by omega) (by omega) fun consequent y d j related passed => ?_
  dsimp only
  rw [follows.kind related]
  split
  · rename_i other
    refine .advance follows related (by simp [other]) fun y i related fewer => ?_
    refine h.stmt.call related (by omega) (by omega) fun alternate y d i related passed => ?_
    exact .spanFrom follows related (.ok related (by omega))
  · exact .spanFrom follows related (.ok related (by omega))

theorem forLoop_succ :
    Tracks r goes apart 1 1 (fuel + 1) (r.forLoop (fuel + 1)) Grammar.forLoop := by
  refine .of_succ (by decide) fun given n x c related enough => ?_
  refine .expect follows related (by simp) fun y l next fewer => ?_
  refine .expect follows next (by simp) fun z k related fewer => ?_
  rw [follows.span ‹goes n x c› (by omega), follows.kind related]
  generalize c.advance.advance = d at related
  have plain :
      Agrees r goes apart (16 * n + 1 ≤ fuel + 1) n 1
        (r.assignment fuel z >>= fun e => r.forHeader fuel c.span (.expr e.1) e.2)
        (Grammar.assignment given d >>= fun e =>
          Grammar.forHeader given c.span (.expr e.1) e.2) := by
    refine h.assignment.call related (by omega) (by omega) fun e y d j related passed => ?_
    exact (h.forHeader _ _ given j y d related (by omega)).mono (by omega) (by omega)
  cases kind : d.kind with
  | word w =>
    cases w with
    | letWord | constWord | varWord =>
      have more : d.kind ≠ .eof := by simp [kind]
      rw [follows.span related (follows.ne_zero related more)]
      refine .advance follows related more fun y j related fewer => ?_
      refine (Agrees.name follows related).bind id fun name y e i related passed => ?_
      dsimp only
      rw [follows.kind related, show e.kind.eachWord? = e.eachWord? from rfl]
      cases each : e.eachWord? with
      | some values =>
        refine .advance follows related (Cursor.more_of_eachWord each) fun y m related fewer => ?_
        exact (h.forEach _ _ _ _ given m y _ related (by omega)).mono (by omega) (by omega)
      | none =>
        refine (h.varDeclFrom _ _ _).call related (by omega) (by omega)
          fun ds y e m related passed => ?_
        exact (h.forHeader _ _ given m y e related (by omega)).mono (by omega) (by omega)
    | _ => exact plain
  | ident name =>
    have more : d.kind ≠ .eof := by simp [kind]
    dsimp only
    rw [follows.secondKind related more,
      show d.advance.kind.eachWord? = d.advance.eachWord? from rfl]
    cases each : d.advance.eachWord? with
    | some values =>
      refine .advance follows related more fun y j related fewer => ?_
      refine .advance follows related (Cursor.more_of_eachWord each) fun y i related fewer => ?_
      exact (h.forEach _ _ _ _ given i y _ related (by omega)).mono (by omega) (by omega)
    | none => exact plain
  | mark m =>
    cases m with
    | semicolon =>
      exact (h.forHeader _ _ given k z d related (by omega)).mono (by omega) (by omega)
    | _ => exact plain
  | _ => exact plain

theorem forHeader_succ (start : Span) (init : ForInit) :
    Tracks r goes apart 1 1 (fuel + 1) (r.forHeader (fuel + 1) start init)
      (Grammar.forHeader · start init) := by
  refine .of_succ (by decide) fun given n x c related enough => ?_
  refine .expect follows related (by simp) fun y l related fewer => ?_
  refine (h.exprUnless _).call related (by omega) (by omega) fun test y d k related passed => ?_
  refine .expect follows related (by simp) fun y j related fewer => ?_
  refine (h.exprUnless _).call related (by omega) (by omega) fun update y d i related passed => ?_
  refine .expect follows related (by simp) fun y m related fewer => ?_
  refine h.stmt.call related (by omega) (by omega) fun body y d k related passed => ?_
  exact .spanFrom follows related (.ok related (by omega))

theorem exprUnless_succ (m : Mark) :
    Tracks r goes apart 7 0 (fuel + 1) (r.exprUnless (fuel + 1) m) (Grammar.exprUnless · m) := by
  refine .of_succ (by decide) fun given n x c related enough => ?_
  rw [Reader.exprUnless, Grammar.exprUnless, follows.sees related]
  split
  · exact .ok related (by omega)
  · refine h.assignment.call related (by omega) (by omega) fun e y d l related passed => ?_
    exact .ok related (by omega)

theorem forEach_succ (start : Span) (decl : Option DeclKind) (binding : String) (values : Bool) :
    Tracks r goes apart 7 1 (fuel + 1) (r.forEach (fuel + 1) start decl binding values)
      (Grammar.forEach · start decl binding values) := by
  refine .of_succ (by decide) fun given n x c related enough => ?_
  refine h.assignment.call related (by omega) (by omega) fun iterable y d l related passed => ?_
  refine .expect follows related (by simp) fun y k related fewer => ?_
  refine h.stmt.call related (by omega) (by omega) fun body y d j related passed => ?_
  exact .spanFrom follows related (.ok related (by omega))

theorem whileLoop_succ :
    Tracks r goes apart 1 1 (fuel + 1) (r.whileLoop (fuel + 1)) Grammar.whileLoop := by
  refine .of_succ (by decide) fun given n x c related enough => ?_
  refine .expect follows related (by simp) fun y l next fewer => ?_
  rw [follows.span related (by omega)]
  refine h.header.call next (by omega) (by omega) fun test y d k related passed => ?_
  refine h.stmt.call related (by omega) (by omega) fun body y d j related passed => ?_
  exact .spanFrom follows related (.ok related (by omega))

theorem doWhile_succ :
    Tracks r goes apart 1 1 (fuel + 1) (r.doWhile (fuel + 1)) Grammar.doWhile := by
  refine .of_succ (by decide) fun given n x c related enough => ?_
  refine .expect follows related (by simp) fun y l next fewer => ?_
  rw [follows.span related (by omega)]
  refine h.stmt.call next (by omega) (by omega) fun body y d k related passed => ?_
  refine .expect follows related (by simp) fun y j related fewer => ?_
  refine h.header.call related (by omega) (by omega) fun test y d i related passed => ?_
  refine .skip follows related fun y m related fewer => ?_
  exact .spanFrom follows related (.ok related (by omega))

theorem assignment_succ :
    Tracks r goes apart 6 1 (fuel + 1) (r.assignment (fuel + 1)) Grammar.assignment := by
  refine .of_succ (by decide) fun given n x c related enough => ?_
  rw [Reader.assignment, Grammar.assignment, follows.atArrow related]
  change Agrees r goes apart _ n 1 (if c.atArrow = true then _ else _) _
  split
  · exact (h.arrow given n x c related (by omega)).mono (by omega) (by omega)
  refine h.conditional.call related (by omega) (by omega) fun target y d l related passed => ?_
  dsimp only
  rw [follows.kind related, show d.kind.assignOp? = d.assignOp? from rfl]
  cases operator : d.assignOp? with
  | none => exact .ok related (by omega)
  | some op =>
    dsimp only
    split
    · have more : d.kind ≠ .eof := by
        intro ended
        simp [Cursor.assignOp?, ended] at operator
      refine .advance follows related more fun y k related fewer => ?_
      refine h.assignment.call related (by omega) (by omega) fun value y d j related passed => ?_
      exact .ok related (by omega)
    · exact .fail follows related (by simp)

theorem conditional_succ :
    Tracks r goes apart 5 1 (fuel + 1) (r.conditional (fuel + 1)) Grammar.conditional := by
  refine .of_succ (by decide) fun given n x c related enough => ?_
  refine (h.binary 1).call related (by omega) (by omega) fun test y d l related passed => ?_
  dsimp only
  rw [follows.sees related]
  split
  · rename_i question
    refine .advance follows related (Cursor.more_of_sees question) fun y k related fewer => ?_
    refine h.assignment.call related (by omega) (by omega) fun consequent y d j related passed => ?_
    refine .expect follows related (by simp) fun y i related fewer => ?_
    refine h.assignment.call related (by omega) (by omega) fun alternate y d m related passed => ?_
    exact .ok related (by omega)
  · exact .ok related (by omega)

omit follows in
theorem binary_succ (least : Nat) :
    Tracks r goes apart 4 1 (fuel + 1) (r.binary (fuel + 1) least) (Grammar.binary · least) := by
  refine .of_succ (by decide) fun given n x c related enough => ?_
  refine h.unary.call related (by omega) (by omega) fun lhs y d l related passed => ?_
  exact (h.binaryTail least lhs given l y d related (by omega)).mono (by omega) (by omega)

theorem binaryTail_succ (least : Nat) (lhs : Expr) :
    Tracks r goes apart 1 0 (fuel + 1) (r.binaryTail (fuel + 1) least lhs)
      (Grammar.binaryTail · least lhs) := by
  refine .of_succ (by decide) fun given n x c related enough => ?_
  rw [Reader.binaryTail, Grammar.binaryTail, follows.kind related,
    show c.kind.binOp? = c.binOp? from rfl]
  cases operator : c.binOp? with
  | none => exact .ok related (by omega)
  | some op =>
    dsimp only
    split
    · exact .ok related (by omega)
    have more : c.kind ≠ .eof := by
      intro ended
      simp [Cursor.binOp?, ended] at operator
    refine .advance follows related more fun y l related fewer => ?_
    refine (h.binary _).call related (by omega) (by omega) fun rhs y d k related passed => ?_
    exact (h.binaryTail least _ given k y d related (by omega)).mono (by omega) (by omega)

theorem unary_operand {given n : Nat} {x : κ} {c : Cursor} (node : Expr → Span → Expr)
    (start : goes n x c) (more : c.kind ≠ .eof) (enough : 16 * n + 3 ≤ given + 1) :
    Agrees r goes apart (16 * n + 3 ≤ fuel + 1) n 1
      (do
        let y ← r.advance x
        let (e, y) ← r.unary fuel y
        return (node e ((r.span x).cover e.span), y))
      (Grammar.unary given c.advance >>= fun e => pure (node e.1 (c.span.cover e.1.span), e.2)) := by
  rw [follows.span start (follows.ne_zero start more)]
  refine .advance follows start more fun y l next fewer => ?_
  refine h.unary.call next (by omega) (by omega) fun e y d k next passed => ?_
  exact .ok next (by omega)

theorem unary_succ :
    Tracks r goes apart 3 1 (fuel + 1) (r.unary (fuel + 1)) Grammar.unary := by
  refine .of_succ (by decide) fun given n x c related enough => ?_
  rw [Reader.unary, Grammar.unary, follows.kind related]
  cases prefixed : c.kind.unaryOp? with
  | some op =>
    have more : c.kind ≠ .eof := by
      intro ended
      simp [ended, TokenKind.unaryOp?] at prefixed
    exact h.unary_operand follows (.unary op) related more enough
  | none =>
    cases updated : c.kind.updateOp? with
    | some op =>
      have more : c.kind ≠ .eof := by
        intro ended
        simp [ended, TokenKind.updateOp?] at updated
      exact h.unary_operand follows (.update op true) related more enough
    | none =>
      refine h.primary.call related (by omega) (by omega) fun e y d l related passed => ?_
      exact (h.postfixTail e given l y d related (by omega)).mono (by omega) (by omega)

theorem items_succ (close : Mark) :
    Tracks r goes apart 7 1 (fuel + 1) (r.items (fuel + 1) close) (Grammar.items · close) := by
  refine .of_succ (by decide) fun given n x c related enough => ?_
  rw [Reader.items, Grammar.items, follows.sees related]
  split
  · rename_i closed
    refine .advance follows related (Cursor.more_of_sees closed) fun y l related fewer => ?_
    exact .ok related (by omega)
  refine h.assignment.call related (by omega) (by omega) fun first y d l related passed => ?_
  dsimp only
  rw [follows.sees related]
  split
  · rename_i comma
    refine .advance follows related (Cursor.more_of_sees comma) fun y k related fewer => ?_
    refine (h.items close).call related (by omega) (by omega) fun rest y d j related passed => ?_
    exact .ok related (by omega)
  · refine .expect follows related (by simp) fun y k related fewer => ?_
    exact .ok related (by omega)

theorem arrow_succ :
    Tracks r goes apart 2 1 (fuel + 1) (r.arrow (fuel + 1)) Grammar.arrow := by
  refine .of_succ (by decide) fun given n x c related enough => ?_
  refine (h.arrowParams follows).call related (by omega) (by omega) fun ps y d l next passed => ?_
  refine .expect follows next (by simp) fun y k next fewer => ?_
  rw [follows.span related (by omega), follows.sees next]
  split
  · refine h.block.call next (by omega) (by omega) fun body y d j related passed => ?_
    exact .spanFrom follows related (.ok related (by omega))
  · refine h.assignment.call next (by omega) (by omega) fun value y d j related passed => ?_
    exact .spanFrom follows related (.ok related (by omega))

theorem postfixTail_succ (e : Expr) :
    Tracks r goes apart 1 0 (fuel + 1) (r.postfixTail (fuel + 1) e)
      (Grammar.postfixTail · e) := by
  refine .of_succ (by decide) fun given n x c related enough => ?_
  rw [Reader.postfixTail, Grammar.postfixTail, follows.kind related]
  have further (e : Expr) (y : κ) (d : Cursor) (m : Nat) (related : goes m y d) (fewer : m < n) :
      Agrees r goes apart (16 * n + 1 ≤ fuel + 1) n 0 (r.postfixTail fuel e y)
        (Grammar.postfixTail given e d) :=
    (h.postfixTail e given m y d related (by omega)).mono (by omega) (by omega)
  cases kind : c.kind with
  | mark m =>
    cases m with
    | lparen =>
      refine .advance follows related (by simp [kind]) fun y l related fewer => ?_
      refine (h.items _).call related (by omega) (by omega) fun args y d k related passed => ?_
      exact .spanFrom follows related (further _ y d k related (by omega))
    | dot =>
      refine .advance follows related (by simp [kind]) fun y l related fewer => ?_
      refine (Agrees.property follows related).bind id fun name y d k related passed => ?_
      exact .spanFrom follows related (further _ y d k related (by omega))
    | lbracket =>
      refine .advance follows related (by simp [kind]) fun y l related fewer => ?_
      refine h.assignment.call related (by omega) (by omega) fun i y d k related passed => ?_
      refine .expect follows related (by simp) fun y j related fewer => ?_
      exact .spanFrom follows related (further _ y _ j related (by omega))
    | plusPlus | minusMinus =>
      refine .advance follows related (by simp [kind]) fun y l related fewer => ?_
      exact .spanFrom follows related (further _ y _ l related (by omega))
    | _ => exact .ok related (by omega)
  | _ => exact .ok related (by omega)

theorem primary_succ :
    Tracks r goes apart 2 1 (fuel + 1) (r.primary (fuel + 1)) Grammar.primary := by
  refine .of_succ (by decide) fun given n x c related enough => ?_
  rw [Reader.primary, Grammar.primary, follows.kind related]
  by_cases ended : c.kind = .eof
  · rw [ended]
    exact .fail follows related (by simp)
  rw [follows.span related (follows.ne_zero related ended)]
  have single (e : Span → Expr) :
      Agrees r goes apart (16 * n + 2 ≤ fuel + 1) n 1
        (do
          let y ← r.advance x
          return (e (← r.spanFrom c.span y), y))
        (.ok (e (c.span.cover c.advance.last), c.advance)) := by
    refine .advance follows related ended fun y l related fewer => ?_
    exact .spanFrom follows related (.ok related (by omega))
  cases kind : c.kind with
  | number v => exact single (.number v)
  | str v => exact single (.str v)
  | template v => exact single (.template v)
  | ident name => exact single (.ident name)
  | word w =>
    cases w with
    | trueWord => exact single (.bool true)
    | falseWord => exact single (.bool false)
    | nullWord => exact single .null
    | functionWord =>
      refine (h.func false).call related (by omega) (by omega) fun f y d l related passed => ?_
      exact .spanFrom follows related (.ok related (by omega))
    | _ => exact .fail follows related (by simp)
  | mark m =>
    cases m with
    | lbracket =>
      refine .advance follows related ended fun y l related fewer => ?_
      refine (h.items _).call related (by omega) (by omega) fun es y d k related passed => ?_
      exact .spanFrom follows related (.ok related (by omega))
    | lparen =>
      refine .advance follows related ended fun y l related fewer => ?_
      refine h.assignment.call related (by omega) (by omega) fun e y d k related passed => ?_
      refine .expect follows related (by simp) fun y j related fewer => ?_
      exact .spanFrom follows related (.ok related (by omega))
    | _ => exact .fail follows related (by simp)
  | eof => exact absurd kind ended

omit h in
theorem stmt_spanned {enough : Prop} {m n : Nat} {x y : κ} {c d : Cursor} (node : Span → Stmt)
    (start : goes n x c) (next : goes m y d) (fewer : m < n) :
    Agrees r goes apart enough n 1
      (do return (node (← r.spanFrom (r.span x) y), y))
      (.ok (node (c.span.cover d.last), d)) := by
  rw [follows.span start (by omega)]
  exact .spanFrom follows next (.ok next (by omega))

omit h in
theorem stmt_closed {enough : Prop} {m n : Nat} {x y : κ} {c d : Cursor} (node : Span → Stmt)
    (start : goes n x c) (next : goes m y d) (fewer : m < n) :
    Agrees r goes apart enough n 1
      (do
        let y ← r.skip y .semicolon
        return (node (← r.spanFrom (r.span x) y), y))
      (.ok (node (c.span.cover (d.skip .semicolon).last), d.skip .semicolon)) := by
  refine .skip follows next fun y l next fewer => ?_
  exact stmt_spanned follows node start next (by omega)

theorem stmt_succ : Tracks r goes apart 7 1 (fuel + 1) (r.stmt (fuel + 1)) Grammar.stmt := by
  refine .of_succ (by decide) fun given n x c related enough => ?_
  rw [Reader.stmt, Grammar.stmt, follows.kind related]
  have plain :
      Agrees r goes apart (16 * n + 7 ≤ fuel + 1) n 1
        (r.assignment fuel x >>= fun e => r.skip e.2 .semicolon >>= fun y =>
          r.spanFrom (r.span x) y >>= fun s => pure (Stmt.expr e.1 s, y))
        (Grammar.assignment given c >>= fun e =>
          pure (.expr e.1 (c.span.cover (e.2.skip .semicolon).last), e.2.skip .semicolon)) := by
    refine h.assignment.call related (by omega) (by omega) fun e y d l next passed => ?_
    exact stmt_closed follows (.expr e) related next (by omega)
  cases kind : c.kind with
  | word w =>
    have more : c.kind ≠ .eof := by simp [kind]
    cases w with
    | letWord | constWord | varWord =>
      refine h.varDecl.call related (by omega) (by omega) fun decl y d l next passed => ?_
      exact stmt_closed follows (.varDecl decl) related next (by omega)
    | functionWord =>
      refine (h.func true).call related (by omega) (by omega) fun f y d l next passed => ?_
      exact stmt_spanned follows (.func f) related next (by omega)
    | ifWord => exact (h.ifElse given n x c related (by omega)).mono (by omega) (by omega)
    | forWord =>
      refine h.forLoop.call related (by omega) (by omega) fun l y d m next passed => ?_
      exact stmt_spanned follows (.loop l) related next (by omega)
    | whileWord =>
      refine h.whileLoop.call related (by omega) (by omega) fun l y d m next passed => ?_
      exact stmt_spanned follows (.loop l) related next (by omega)
    | doWord =>
      refine h.doWhile.call related (by omega) (by omega) fun l y d m next passed => ?_
      exact stmt_spanned follows (.loop l) related next (by omega)
    | returnWord =>
      refine .advance follows related more fun y l next fewer => ?_
      rw [follows.kind next, show c.advance.kind.endsStmt = c.advance.atStmtEnd from rfl]
      dsimp only
      split
      · exact stmt_closed follows (.ret none) related next (by omega)
      · refine h.assignment.call next (by omega) (by omega) fun value y d m next passed => ?_
        exact stmt_closed follows (.ret (some value)) related next (by omega)
    | breakWord =>
      refine .advance follows related more fun y l next fewer => ?_
      exact stmt_closed follows .brk related next (by omega)
    | continueWord =>
      refine .advance follows related more fun y l next fewer => ?_
      exact stmt_closed follows .cont related next (by omega)
    | _ => exact plain
  | mark m =>
    have more : c.kind ≠ .eof := by simp [kind]
    cases m with
    | lbrace =>
      refine h.block.call related (by omega) (by omega) fun body y d l next passed => ?_
      exact stmt_spanned follows (.block body) related next (by omega)
    | semicolon =>
      refine .advance follows related more fun y l next fewer => ?_
      exact stmt_spanned follows .empty related next (by omega)
    | _ => exact plain
  | _ => exact plain

end Tracking

theorem tracking (follows : Follows r goes apart) (fuel : Nat) : Tracking r goes apart fuel := by
  induction fuel with
  | zero => exact tracking_zero
  | succ fuel h =>
    exact {
      paramNames := h.paramNames_succ follows
      stmt := h.stmt_succ follows
      stmts := h.stmts_succ follows
      block := h.block_succ follows
      blockStmts := h.blockStmts_succ follows
      varDecl := h.varDecl_succ follows
      varDeclFrom := h.varDeclFrom_succ follows
      declarators := h.declarators_succ follows
      initializer := h.initializer_succ follows
      func := h.func_succ follows
      header := h.header_succ follows
      ifElse := h.ifElse_succ follows
      forLoop := h.forLoop_succ follows
      forHeader := h.forHeader_succ follows
      exprUnless := h.exprUnless_succ follows
      forEach := h.forEach_succ follows
      whileLoop := h.whileLoop_succ follows
      doWhile := h.doWhile_succ follows
      assignment := h.assignment_succ follows
      conditional := h.conditional_succ follows
      binary := h.binary_succ
      binaryTail := h.binaryTail_succ follows
      unary := h.unary_succ follows
      postfixTail := h.postfixTail_succ follows
      primary := h.primary_succ follows
      items := h.items_succ follows
      arrow := h.arrow_succ follows }

end Reader

end SortTrace.Script
