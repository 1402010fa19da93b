import SortTrace.Proofs.Script.Phrase

/-!
Statements read back: declarations, expressions, conditions, blocks and counting loops, each from
the tokens of its parts.
-/

namespace SortTrace.Script

open Cursor (ofKinds)

def DeclKind.keyword : DeclKind → Keyword
  | .letKind => .letWord
  | .constKind => .constWord
  | .varKind => .varWord

def declarationTokens (kind : DeclKind) (name : String) (value : List TokenKind) :
    List TokenKind :=
  .word kind.keyword :: .ident name :: .mark .eq :: (value ++ [TokenKind.mark .semicolon])

def blockTokens (body : List TokenKind) : List TokenKind :=
  .mark .lbrace :: (body ++ [TokenKind.mark .rbrace])

def ifTokens (test consequent : List TokenKind) : List TokenKind :=
  .word .ifWord :: .mark .lparen :: (test ++ .mark .rparen :: consequent)

def forTokens (kind : DeclKind) (name : String) (init test update body : List TokenKind) :
    List TokenKind :=
  .word .forWord :: .mark .lparen :: .word kind.keyword :: .ident name :: .mark .eq ::
    (init ++ .mark .semicolon :: (test ++ .mark .semicolon :: (update ++ .mark .rparen :: body)))

namespace Grammar

/-- The tokens are read as the statement, unless an `else` follows. -/
structure ReadsStmt (ks : List TokenKind) (s : Stmt) : Prop where
  opens : ∀ rest, (ofKinds (ks ++ rest)).kind ∉
    [.mark .rbrace, .eof, .word .elseWord]
  reads : ∀ fuel rest, 16 * ks.length ≤ fuel → NoArrow (ks ++ rest) →
    (ofKinds rest).kind ≠ .word .elseWord →
    stmt fuel (ofKinds (ks ++ rest)) = .ok (s.bare, ofKinds rest)

structure ReadsBody (ks : List TokenKind) (body : List Stmt) : Prop where
  noElse : ∀ rest, (ofKinds rest).kind ≠ .word .elseWord →
    (ofKinds (ks ++ rest)).kind ≠ .word .elseWord
  reads : ∀ fuel rest, 16 * ks.length < fuel → NoArrow (ks ++ .mark .rbrace :: rest) →
    blockStmts fuel (ofKinds (ks ++ .mark .rbrace :: rest)) =
      .ok (Stmt.bares body, ofKinds (.mark .rbrace :: rest))
  readsAll : ∀ fuel, 16 * ks.length < fuel → NoArrow (ks ++ [TokenKind.eof]) →
    stmts fuel (ofKinds (ks ++ [TokenKind.eof])) = .ok (Stmt.bares body, ofKinds [.eof])

variable {ks ls : List TokenKind}

theorem ReadsStmt.length {s : Stmt} (reads : ReadsStmt ks s) : 0 < ks.length := by
  rcases ks with _ | ⟨k, ks⟩
  · have opens := reads.opens [.eof]
    simp at opens
  · simp

theorem ReadsBody.nil : ReadsBody [] [] where
  noElse := fun rest other => other
  reads := fun fuel rest enough noArrow => by
    obtain ⟨fuel, rfl⟩ : ∃ n, fuel = n + 1 := ⟨fuel - 1, by omega⟩
    simp [blockStmts, Cursor.sees, Stmt.bares]
  readsAll := fun fuel enough noArrow => by
    obtain ⟨fuel, rfl⟩ : ∃ n, fuel = n + 1 := ⟨fuel - 1, by omega⟩
    simp [stmts, Stmt.bares]

theorem ReadsBody.cons {s : Stmt} {body : List Stmt} (first : ReadsStmt ks s)
    (others : ReadsBody ls body) : ReadsBody (ks ++ ls) (s :: body) := by
  have length := first.length
  refine ⟨fun rest other => ?_, fun fuel rest enough noArrow => ?_, fun fuel enough noArrow => ?_⟩
  · have opens := first.opens (ls ++ rest)
    rw [List.append_assoc]
    simp only [List.mem_cons, not_or] at opens
    exact opens.2.2.1
  · rw [List.length_append] at enough
    rw [List.append_assoc] at noArrow ⊢
    obtain ⟨fuel, rfl⟩ : ∃ n, fuel = n + 1 := ⟨fuel - 1, by omega⟩
    have opens := first.opens (ls ++ .mark .rbrace :: rest)
    simp only [List.mem_cons, not_or] at opens
    have statement := first.reads fuel (ls ++ .mark .rbrace :: rest) (by omega) noArrow
      (others.noElse _ (by simp))
    have body := others.reads fuel rest (by omega) noArrow.right
    rw [blockStmts]
    simp [Cursor.sees, opens, statement, body, bind, Except.bind, pure, Except.pure, Stmt.bares]
  · rw [List.length_append] at enough
    rw [List.append_assoc] at noArrow ⊢
    obtain ⟨fuel, rfl⟩ : ∃ n, fuel = n + 1 := ⟨fuel - 1, by omega⟩
    have opens := first.opens (ls ++ [TokenKind.eof])
    simp only [List.mem_cons, not_or] at opens
    have statement := first.reads fuel (ls ++ [TokenKind.eof]) (by omega) noArrow
      (others.noElse _ (by simp))
    have body := others.readsAll fuel (by omega) noArrow.right
    rw [stmts]
    simp [opens, statement, body, bind, Except.bind, pure, Except.pure, Stmt.bares]

theorem ReadsBody.single {s : Stmt} (reads : ReadsStmt ks s) : ReadsBody ks [s] := by
  have body := ReadsBody.cons reads .nil
  rwa [List.append_nil] at body

theorem ReadsBody.block {body : List Stmt} (reads : ReadsBody ks body) (s : Span) :
    ReadsStmt (blockTokens ks) (.block body s) := by
  unfold blockTokens
  refine ⟨fun rest => by simp, fun fuel rest enough noArrow other => ?_⟩
  simp only [List.length_cons, List.length_append, List.length_nil] at enough
  simp only [List.cons_append, List.append_assoc, List.nil_append] at noArrow ⊢
  obtain ⟨fuel, rfl⟩ : ∃ n, fuel = n + 2 := ⟨fuel - 2, by omega⟩
  have inside := reads.reads fuel rest (by omega) noArrow.tail
  have braces : Grammar.block (fuel + 1)
      (ofKinds (.mark .lbrace :: (ks ++ .mark .rbrace :: rest))) =
      .ok (Stmt.bares body, ofKinds rest) := by
    simp [Grammar.block, Cursor.expect_ofKinds, inside, bind, Except.bind, pure, Except.pure]
  simp [stmt, braces, bind, Except.bind, pure, Except.pure, Stmt.bare]

theorem ReadsStmt.ifElse {test : Expr} {consequent : Stmt} {ts cs : List TokenKind}
    (readsTest : ReadsAssignment ts test) (reads : ReadsStmt cs consequent) (s : Span) :
    ReadsStmt (ifTokens ts cs) (.ifElse test consequent none s) := by
  unfold ifTokens
  refine ⟨fun rest => by simp, fun fuel rest enough noArrow other => ?_⟩
  simp only [List.length_cons, List.length_append] at enough
  simp only [List.cons_append, List.append_assoc] at noArrow ⊢
  obtain ⟨fuel, rfl⟩ : ∃ n, fuel = n + 3 := ⟨fuel - 3, by omega⟩
  have condition := readsTest fuel (.mark .rparen :: (cs ++ rest)) (by omega) noArrow.tail.tail rfl
  have branch := reads.reads (fuel + 1) rest (by omega) noArrow.tail.tail.right.tail other
  have header : header (fuel + 1)
      (ofKinds (.mark .lparen :: (ts ++ .mark .rparen :: (cs ++ rest)))) =
      .ok (test.bare, ofKinds (cs ++ rest)) := by
    simp [header, Cursor.expect_ofKinds, condition, bind, Except.bind, pure, Except.pure]
  rw [stmt]
  simp only [Cursor.kind_ofKinds]
  rw [Grammar.ifElse]
  simp [Cursor.expect_ofKinds, header, branch, other, bind, Except.bind, pure, Except.pure,
    Stmt.bare]

theorem declKind?_keyword (kind : DeclKind) :
    (TokenKind.word kind.keyword).declKind? = some kind := by
  cases kind <;> rfl

theorem varDeclFrom_one {value : Expr} (kind : DeclKind) (name : String)
    (reads : ReadsAssignment ks value) (fuel : Nat) (rest : List TokenKind)
    (enough : 8 * ks.length ≤ fuel) (noArrow : NoArrow (ks ++ .mark .semicolon :: rest))
    (s s' : Span) :
    varDeclFrom (fuel + 3) kind {} name (ofKinds (.mark .eq :: (ks ++ .mark .semicolon :: rest))) =
      .ok ((VarDecl.mk kind [.mk name (some value) s] s').bare,
        ofKinds (.mark .semicolon :: rest)) := by
  have read := reads fuel (.mark .semicolon :: rest) enough noArrow rfl
  have given : initializer (fuel + 1)
      (ofKinds (.mark .eq :: (ks ++ .mark .semicolon :: rest))) =
      .ok (some value.bare, ofKinds (.mark .semicolon :: rest)) := by
    simp [initializer, Cursor.sees, read, bind, Except.bind, pure, Except.pure]
  have declared : declarators (fuel + 2) name
      (ofKinds (.mark .eq :: (ks ++ .mark .semicolon :: rest))) =
      .ok ([.mk name (some value.bare) {}], ofKinds (.mark .semicolon :: rest)) := by
    rw [declarators, given]
    simp [Cursor.sees, bind, Except.bind, pure, Except.pure]
  rw [varDeclFrom, declared]
  simp [bind, Except.bind, pure, Except.pure, VarDecl.bare, Declarator.bares, Declarator.bare]

theorem ReadsStmt.declaration {value : Expr} (kind : DeclKind) (name : String)
    (reads : ReadsAssignment ks value) (s s' s'' : Span) :
    ReadsStmt (declarationTokens kind name ks)
      (.varDecl (.mk kind [.mk name (some value) s] s') s'') := by
  unfold declarationTokens
  refine ⟨fun rest => by cases kind <;> simp [DeclKind.keyword],
    fun fuel rest enough noArrow other => ?_⟩
  simp only [List.length_cons, List.length_append, List.length_nil] at enough
  simp only [List.cons_append, List.append_assoc, List.nil_append] at noArrow ⊢
  obtain ⟨fuel, rfl⟩ : ∃ n, fuel = n + 5 := ⟨fuel - 5, by omega⟩
  have one := varDeclFrom_one kind name reads fuel rest (by omega) noArrow.tail.tail.tail s s'
  have whole : varDecl (fuel + 4) (ofKinds (.word kind.keyword :: .ident name :: .mark .eq ::
      (ks ++ .mark .semicolon :: rest))) =
      .ok ((VarDecl.mk kind [.mk name (some value) s] s').bare,
        ofKinds (.mark .semicolon :: rest)) := by
    simp [varDecl, declKind?_keyword, Cursor.name, one, bind, Except.bind]
  cases kind
  all_goals
    simp only [DeclKind.keyword] at whole ⊢
    simp [stmt, whole, Cursor.skip, Cursor.sees, bind, Except.bind, pure, Except.pure, Stmt.bare]

theorem ReadsStmt.expression {e : Expr} {k : TokenKind}
    (reads : ReadsAssignment (k :: ks) e) (opens : k = .mark .lbracket ∨ ∃ name, k = .ident name)
    (s : Span) : ReadsStmt (k :: (ks ++ [TokenKind.mark .semicolon])) (.expr e s) := by
  refine ⟨fun rest => ?_, fun fuel rest enough noArrow other => ?_⟩
  · rcases opens with rfl | ⟨name, rfl⟩ <;> simp
  · simp only [List.length_cons, List.length_append, List.length_nil] at enough
    simp only [List.cons_append, List.append_assoc, List.nil_append] at noArrow ⊢
    obtain ⟨fuel, rfl⟩ : ∃ n, fuel = n + 1 := ⟨fuel - 1, by omega⟩
    have read := reads fuel (.mark .semicolon :: rest) (by simp only [List.length_cons]; omega)
      noArrow rfl
    simp only [List.cons_append] at read
    rcases opens with rfl | ⟨name, rfl⟩
    all_goals
      simp [stmt, read, Cursor.skip, Cursor.sees, bind, Except.bind, pure, Except.pure, Stmt.bare]

theorem exprUnless_some {e : Expr} {m : Mark} (reads : ReadsAt 0 ks e) (closes : m.Closes)
    (fuel : Nat) (rest : List TokenKind) (enough : 8 * ks.length ≤ fuel)
    (noArrow : NoArrow (ks ++ .mark m :: rest)) :
    exprUnless (fuel + 1) m (ofKinds (ks ++ .mark m :: rest)) =
      .ok (some e.bare, ofKinds (.mark m :: rest)) := by
  have loose : (ofKinds (.mark m :: rest)).grip = 0 := by
    rcases closes with rfl | rfl | rfl <;> rfl
  have start := reads.assignment.start reads.nonempty m closes noArrow loose
  have read := reads.assignment fuel (.mark m :: rest) enough noArrow loose
  simp [exprUnless, start, read, bind, Except.bind, pure, Except.pure]

theorem forHeader_full (init : ForInit) {test update : Expr} {body : Stmt}
    {ts us bs : List TokenKind} (readsTest : ReadsAt 0 ts test) (readsUpdate : ReadsAt 0 us update)
    (readsBody : ReadsStmt bs body) (fuel : Nat) (rest : List TokenKind)
    (enough : 16 * (ts.length + us.length + bs.length) ≤ fuel)
    (noArrow : NoArrow (.mark .semicolon ::
      (ts ++ .mark .semicolon :: (us ++ .mark .rparen :: (bs ++ rest)))))
    (other : (ofKinds rest).kind ≠ .word .elseWord) (s : Span) :
    forHeader (fuel + 2) {} init.bare (ofKinds (.mark .semicolon ::
      (ts ++ .mark .semicolon :: (us ++ .mark .rparen :: (bs ++ rest))))) =
      .ok ((Loop.forLoop init (some test) (some update) body s).bare, ofKinds rest) := by
  have afterTest := noArrow.tail.right.tail
  have tested := exprUnless_some readsTest (.inr (.inr rfl)) fuel _ (by omega) noArrow.tail
  have updated := exprUnless_some readsUpdate (.inl rfl) fuel _ (by omega) afterTest
  have repeated := readsBody.reads (fuel + 1) rest (by omega) afterTest.right.tail other
  rw [forHeader]
  simp [Cursor.expect_ofKinds, tested, updated, repeated, bind, Except.bind, pure, Except.pure,
    Loop.bare]

theorem ReadsStmt.forLoop {init test update : Expr} {body : Stmt}
    {is ts us bs : List TokenKind} (kind : DeclKind) (name : String)
    (readsInit : ReadsAssignment is init) (readsTest : ReadsAt 0 ts test)
    (readsUpdate : ReadsAt 0 us update) (readsBody : ReadsStmt bs body) (s s' s'' s₃ : Span) :
    ReadsStmt (forTokens kind name is ts us bs)
      (.loop (.forLoop (.varDecl (.mk kind [.mk name (some init) s] s')) (some test) (some update)
        body s'') s₃) := by
  unfold forTokens
  refine ⟨fun rest => by simp, fun fuel rest enough noArrow other => ?_⟩
  simp only [List.length_cons, List.length_append] at enough
  simp only [List.cons_append, List.append_assoc] at noArrow ⊢
  obtain ⟨fuel, rfl⟩ : ∃ n, fuel = n + 5 := ⟨fuel - 5, by omega⟩
  have afterName := noArrow.tail.tail.tail.tail.tail
  have declared := varDeclFrom_one kind name readsInit fuel _ (by omega) afterName s s'
  have header := forHeader_full (.varDecl (.mk kind [.mk name (some init) s] s')) readsTest
    readsUpdate readsBody (fuel + 1) rest (by omega) afterName.right other s''
  simp only [ForInit.bare] at header
  have whole : Grammar.forLoop (fuel + 4) (ofKinds (.word .forWord :: .mark .lparen ::
      .word kind.keyword :: .ident name :: .mark .eq ::
      (is ++ .mark .semicolon :: (ts ++ .mark .semicolon ::
        (us ++ .mark .rparen :: (bs ++ rest)))))) =
      .ok ((Loop.forLoop (.varDecl (.mk kind [.mk name (some init) s] s')) (some test)
        (some update) body s'').bare, ofKinds rest) := by
    cases kind
    all_goals
      simp only [DeclKind.keyword] at *
      simp [Grammar.forLoop, Cursor.expect_ofKinds, TokenKind.declKind?, Cursor.name,
        Cursor.eachWord?, declared, header, bind, Except.bind]
  simp [stmt, whole, bind, Except.bind, pure, Except.pure, Stmt.bare]

end Grammar

end SortTrace.Script
